import Retouch.Grammar.Table

/-!
# Trees with faults

A tree covers its text without a gap: each node knows the blanks before it and its own extent. Where a
text makes no sense, parts of it stand in nodes of noise, and tokens may be missing; each such fault has
a cost, and the costs of a tree tell how far it is from a sound one.
-/
namespace Retouch.Grammar

/-- How far a text reaches. -/
structure Extent where
  chars : Nat := 0
  bytes : Nat := 0
  lines : Nat := 0
  deriving DecidableEq, Repr, Inhabited

namespace Extent

def add (a b : Extent) : Extent := ⟨a.chars + b.chars, a.bytes + b.bytes, a.lines + b.lines⟩

instance : Add Extent := ⟨add⟩

/-- The extent between two places of a text. -/
def between (start stop : Extent) : Extent :=
  ⟨stop.chars - start.chars, stop.bytes - start.bytes, stop.lines - start.lines⟩

/-- The places before each character of a text, and behind it. -/
def places (text : Array Nat) : Array Extent :=
  text.foldl
    (fun places code =>
      let last := places.back?.getD {}
      let bytes := if code < 0x80 then 1 else if code < 0x800 then 2
        else if code < 0x10000 then 3 else 4
      places.push ⟨last.chars + 1, last.bytes + bytes, last.lines + if code = 10 then 1 else 0⟩)
    #[{}]

end Extent

/-! ## Costs -/

/-- What each run of noise costs. -/
def recoveryCost : Nat := 500

/-- What a missing token costs on top. -/
def missingCost : Nat := 110

/-- What a node in noise costs, and what a byte and a line of noise cost. -/
def skippedNodeCost : Nat := 100

def skippedByteCost : Nat := 1

def skippedLineCost : Nat := 30

/-- What a stretch of noise costs. -/
def skippedCost (extent : Extent) : Nat :=
  extent.bytes * skippedByteCost + extent.lines * skippedLineCost

/-! ## Trees -/

/-- What is known about a node. -/
structure Label where
  symbol : Symbol
  /-- The blanks before it. -/
  gap : Extent := {}
  size : Extent := {}
  /-- Whether it belongs to no production. -/
  extra : Bool := false
  missing : Bool := false
  cost : Nat := 0
  shows : Bool := false
  favour : Int := 0
  /-- The number of nodes below that show. -/
  shownBelow : Nat := 0
  /-- The number of those that show as its own parts. -/
  shownParts : Nat := 0
  /-- The number of the names that its parts show under. -/
  names : Nat := 0
  /-- The state in which a token was found. -/
  state : Nat := 0
  deriving Inhabited

/-- A tree of a text; a token has no parts. -/
inductive Tree where
  | node (label : Label) (parts : List Tree)
  deriving Inhabited

namespace Tree

def label : Tree → Label
  | .node label _ => label

def parts : Tree → List Tree
  | .node _ parts => parts

def symbol (tree : Tree) : Symbol := tree.label.symbol

def cost (tree : Tree) : Nat := tree.label.cost

def isExtra (tree : Tree) : Bool := tree.label.extra

/-- The blanks before a tree and the tree. -/
def extent (tree : Tree) : Extent := tree.label.gap + tree.label.size

def asExtra (extra : Bool) : Tree → Tree
  | .node label parts => .node { label with extra } parts

def favour (more : Int) : Tree → Tree
  | .node label parts => .node { label with favour := label.favour + more } parts

/-- The first symbol without parts. -/
def firstSymbol : Tree → Symbol
  | .node label [] => label.symbol
  | .node _ (part :: _) => part.firstSymbol
termination_by structural tree => tree

end Tree

namespace Table

variable (table : Table)

def state (number : Nat) : State := table.states.getD number ⟨#[], #[], 0⟩

def shows (symbol : Symbol) : Bool := table.showing.getD symbol false

def isNoise (symbol : Symbol) : Bool := symbol == table.plan.noise || symbol == table.plan.noiseRun

/-- The actions of a state on a symbol that is no rule. -/
def actionsOn (state : Nat) (symbol : Symbol) : List Action :=
  if symbol < table.plan.terminals then (table.state state).actionsOn symbol else []

/-- The state behind a symbol, zero where there is none. -/
def stateBehind (state : Nat) (symbol : Symbol) : Nat :=
  if table.isNoise symbol then 0
  else
    match table.plan.ruleOf? symbol with
    | some rule => (table.state state).afterRule.getD rule 0
    | none =>
      match (table.actionsOn state symbol).getLast? with
      | some (.shift next) => next
      | some (.shiftAgain next) => next
      | some .pass => state
      | _ => 0

/-- The node of a token. -/
def leaf (symbol : Symbol) (gap size : Extent) (state : Nat) : Tree :=
  .node { symbol, gap, size, state, extra := symbol == endOfText, shows := table.shows symbol } []

/-- The node of a token that is not in the text. -/
def missing (symbol : Symbol) : Tree :=
  .node { symbol, missing := true, cost := missingCost + recoveryCost, shows := table.shows symbol }
    []

/-- Adds what the label of a node takes from one of its parts. -/
def addPart (inNoise : Bool) (label : Label) (names : List (Option String)) (part : Tree) : Label :=
  let own := part.label
  let skipped :=
    if inNoise && !own.extra && !(own.symbol == table.plan.noise && part.parts.isEmpty) then
      if own.shows then skippedNodeCost
      else if part.parts.isEmpty then 0 else skippedNodeCost * own.shownParts
    else 0
  let renamed := !own.extra && own.symbol != endOfText && (names.head?.bind id).isSome
  { label with
    size := label.size + part.extent
    cost := label.cost + (if own.symbol == table.plan.noiseRun then 0 else own.cost) + skipped
    favour := label.favour + own.favour
    shownBelow := label.shownBelow + own.shownBelow + if renamed || own.shows then 1 else 0
    shownParts := label.shownParts +
      if renamed || own.shows then 1 else if part.parts.isEmpty then 0 else own.shownParts }

/-- Adds what the label of a node takes from its parts; each that is not extra uses up a name. -/
def addParts (inNoise : Bool) (label : Label) (names : List (Option String)) : List Tree → Label
  | [] => label
  | part :: rest =>
    addParts inNoise (table.addPart inNoise label names part)
      (if part.isExtra then names else names.tail) rest

/-- The node of a rule, or of noise. -/
def join (symbol : Symbol) (parts : List Tree) (names : Nat) : Tree :=
  let inNoise := table.isNoise symbol
  let gap := (parts.head?.map fun part => part.label.gap).getD {}
  let label := table.addParts inNoise { symbol, names, shows := table.shows symbol }
    (table.shownNames.getD names []) parts
  let size := Extent.between gap label.size
  let cost := label.cost + if inNoise then recoveryCost + skippedCost size else 0
  .node { label with gap, size, cost } parts

/-- The names of the parts of a node. -/
def namesOf (tree : Tree) : List (Option String) := table.shownNames.getD tree.label.names []

end Table

/-! ## What shows -/

/-- A node as it shows, with its place in the text in characters. -/
inductive Shown where
  | node (name : String) (start stop : Nat) (parts : List Shown)
  deriving Inhabited

namespace Shown

def name : Shown → String
  | .node name _ _ _ => name

def start : Shown → Nat
  | .node _ start _ _ => start

def stop : Shown → Nat
  | .node _ _ stop _ => stop

def parts : Shown → List Shown
  | .node _ _ _ parts => parts

/-- The first part of a name. -/
def part? (node : Shown) (name : String) : Option Shown := node.parts.find? (·.name == name)

end Shown

/-- The name that all uses of a symbol give it, or else its own. -/
def Table.nameOf (table : Table) (symbol : Symbol) : String :=
  if symbol == table.plan.noise then "noise"
  else (table.renamed.getD symbol none).getD (table.plan.names.getD symbol "")

mutual

/-- The nodes that show of a tree that begins, with its blanks, at an offset. -/
def Tree.shownAt (table : Table) (offset : Nat) (renamed : Option String) : Tree → List Shown
  | .node label parts =>
    let inner := Tree.allShownAt table offset (table.shownNames.getD label.names []) parts
    let start := offset + label.gap.chars
    if renamed.isSome || label.shows then
      [.node (renamed.getD (table.nameOf label.symbol)) start (start + label.size.chars) inner]
    else inner
termination_by structural tree => tree

/-- The nodes that show of trees that stand one behind the other. -/
def Tree.allShownAt (table : Table) (offset : Nat) (names : List (Option String)) :
    List Tree → List Shown
  | [] => []
  | part :: rest =>
    Tree.shownAt table offset (if part.isExtra then none else names.head?.bind id) part ++
      Tree.allShownAt table (offset + part.extent.chars)
        (if part.isExtra then names else names.tail) rest
termination_by structural parts => parts

end

end Retouch.Grammar
