import Retouch.Sheet.Grammar
import Retouch.Sheet.Rule
import Retouch.Text.LineBreak

/-!
# Stylesheets

A sheet is a text together with what it is read as, and the search for the rules of a selector in it.
Selectors are compared without regard to case and to the amount of blanks. A text of which some part makes
no sense is read by the grammar of stylesheets, which passes over as little of it as it can; its rules are
those of the tree that comes out, wherever they stand in it. Main statement: `hasError_eq_false`, a sheet
is free of errors if and only if its text is that of items.
-/
namespace Retouch.Sheet

open Grammar (Shown)

/-- The nodes of a text with errors. -/
def mend (source : List Char) : List Shown :=
  let language := Syntax.language.get
  match language.read? source with
  | some tree => tree.shownAt language.table 0 none
  | none => []

/-- The characters from one offset to another. -/
def between (cs : List Char) (start stop : Nat) : List Char := (cs.take stop).drop start

def textAt (source : List Char) (node : Shown) : List Char := between source node.start node.stop

/-- The last part of a name. -/
def lastPart? (node : Shown) (name : String) : Option Shown :=
  node.parts.reverse.find? (·.name == name)

/-- The place of a declaration. -/
def declarationAt (source : List Char) (node : Shown) : Placed :=
  let mark := lastPart? node "!important"
  let semicolon := lastPart? node ";"
  let valueStart := ((node.part? ":").map Shown.stop).getD node.stop
  let valueStop := ((mark.or semicolon).map Shown.start).getD node.stop
  { property := ((node.part? "property").map (textAt source)).getD []
    value := between source valueStart valueStop
    important := mark.isSome, ended := semicolon.isSome
    start := node.start, stop := node.stop, valueStart, valueStop }

/-- The place of a rule. -/
def ruleAt (source : List Char) (container : Option AtRule) (node : Shown) : Rule :=
  let block := node.part? "block"
  let parts := (block.map Shown.parts).getD []
  { start := node.start
    selector := ((node.part? "selectors").map fun part => Text.trim (textAt source part)).getD []
    opening := (parts.head?.map Shown.start).getD node.stop
    innerStart := (parts.head?.map Shown.stop).getD node.stop
    closing := (parts.getLast?.map Shown.start).getD node.stop
    declarations := (parts.filter (·.name == "declaration")).map (declarationAt source)
    container }

/-- The at-rule that a node is, whose block begins at an offset. -/
def atRuleAt (source : List Char) (opening : Nat) (node : Shown) : Option AtRule :=
  let named (name : List Char) (keyword : Shown) : AtRule :=
    { name := Text.lower (String.ofList name)
      params := String.ofList (Text.trim (between source keyword.stop opening))
      start := node.start }
  match node.name with
  | "media" => node.parts.head?.map (named "media".toList)
  | "supports" => node.parts.head?.map (named "supports".toList)
  | "atRule" =>
    node.parts.head?.map fun keyword =>
      named ((textAt source keyword).dropWhile (· = '@')) keyword
  | _ => none

mutual

/-- The rules of a node in the order of the document, directly inside `container`; `outer` is the node
around it. -/
def rulesOfNode (source : List Char) (container : Option AtRule) (outer : Option Shown) :
    Shown → List Rule
  | .node name start stop parts =>
    let node : Shown := .node name start stop parts
    let inside := if name = "block" then outer.bind (atRuleAt source start) else none
    (if name = "rule" then [ruleAt source container node] else []) ++
      rulesOfNodes source inside (some node) parts
termination_by structural node => node

/-- The rules of nodes in the order of the document. -/
def rulesOfNodes (source : List Char) (container : Option AtRule) (outer : Option Shown) :
    List Shown → List Rule
  | [] => []
  | node :: rest =>
    rulesOfNode source container outer node ++ rulesOfNodes source container outer rest
termination_by structural nodes => nodes

end

end Retouch.Sheet

namespace Retouch

namespace Sheet

/-- What a text is read as. -/
inductive Content where
  /-- Items, which hold every character of the text. -/
  | sound (items : List Item)
  /-- The nodes of a text of which some part makes no sense. -/
  | mended (nodes : List Grammar.Shown)

namespace Content

def ofChars (source : List Char) : Content :=
  match parse? source with
  | some items => .sound items
  | none => .mended (mend source)

/-- The rules in the order of the document. -/
def rules (source : List Char) : Content → List Rule
  | .sound items => rulesFrom none 0 items
  | .mended nodes => rulesOfNodes source none none nodes

def isSound : Content → Bool
  | .sound _ => true
  | .mended _ => false

end Content

end Sheet

/-- A stylesheet: its text, and what this text is read as. -/
structure Sheet where
  source : List Char
  content : Sheet.Content
  read : content = .ofChars source

namespace Sheet

def ofChars (source : List Char) : Sheet := ⟨source, .ofChars source, rfl⟩

def ofText (text : String) : Sheet := ofChars text.toList

def toText (sheet : Sheet) : String := String.ofList sheet.source

/-- Whether a part of the sheet makes no sense. -/
def hasError (sheet : Sheet) : Bool := !sheet.content.isSound

/-- The rules of the sheet in the order of the document. -/
def rules (sheet : Sheet) : List Rule := sheet.content.rules sheet.source

/-- Puts a text in the place of those from one offset to another, and reads the sheet anew. -/
def splice (sheet : Sheet) (start stop : Nat) (new : List Char) : Sheet :=
  ofChars (sheet.source.take start ++ new ++ sheet.source.drop stop)

def position (sheet : Sheet) (offset : Nat) : Text.Position := Text.positionAt sheet.source offset

/-- A sheet is free of errors if and only if its text is that of items. -/
theorem hasError_eq_false (sheet : Sheet) :
    sheet.hasError = false ↔
      ∃ items, parse? sheet.source = some items ∧ textOf items = sheet.source := by
  rw [hasError, sheet.read, Content.ofChars]
  cases found : parse? sheet.source with
  | none => simp [Content.isSound]
  | some items => simp [Content.isSound, textOf_parse _ _ found]

/-! ## Search -/

/-- The form in which selectors are compared. -/
def normalizeSelector (cs : List Char) : List Char := Text.lowerChars (Text.collapsed cs)

def Rule.matches (normal : List Char) (rule : Rule) : Except Style.Unbalanced Bool :=
  rule.selectors.map fun parts => (parts.map normalizeSelector).contains normal

/-- The numbered rules that hold, in order. -/
def matching (normal : List Char) : List (Rule × Nat) → Except Style.Unbalanced (List (Rule × Nat))
  | [] => .ok []
  | entry :: rest => do
    let here ← entry.1.matches normal
    let more ← matching normal rest
    return if here then entry :: more else more

/-- All rules that list a selector, with their numbers. -/
def findAll (sheet : Sheet) (selector : String) : Except Style.Unbalanced (List (Rule × Nat)) :=
  matching (normalizeSelector selector.toList) sheet.rules.zipIdx

/-- The first rule that lists a selector. -/
def find? (sheet : Sheet) (selector : String) : Except Style.Unbalanced (Option (Rule × Nat)) :=
  (sheet.findAll selector).map List.head?

/-- The distance of a rule's line from another line. -/
def lineDistance (sheet : Sheet) (line : Int) (rule : Rule) : Nat :=
  ((sheet.position rule.start).line - line : Int).natAbs

/-- The first of the entries with the least distance, among those within the tolerance. -/
def nearest (distance : Rule → Nat) (tolerance : Int) (best : Option (Rule × Nat)) :
    List (Rule × Nat) → Option (Rule × Nat)
  | [] => best
  | entry :: rest =>
    if tolerance < distance entry.1 then nearest distance tolerance best rest
    else match best with
      | none => nearest distance tolerance (some entry) rest
      | some held =>
        if distance entry.1 < distance held.1 then nearest distance tolerance (some entry) rest
        else nearest distance tolerance (some held) rest

/-- Rules are looked for within so many lines, unless asked otherwise. -/
def defaultTolerance : Int := 10

/-- The rule that lists a selector and begins closest to a line. -/
def findNear? (sheet : Sheet) (selector : String) (line tolerance : Int) :
    Except Style.Unbalanced (Option (Rule × Nat)) :=
  (sheet.findAll selector).map (nearest (sheet.lineDistance line) tolerance none)

end Sheet

end Retouch
