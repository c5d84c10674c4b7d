import Retouch.Grammar.Pattern

/-!
# Grammars

A grammar has tokens and rules, and each rule a form. A form is unfolded into productions: plain rows
of symbols, in which a repetition has become a rule of its own, and a choice several productions.
Main statement: `numberOf?_lt`, a name of the grammar stands for one of its symbols.
-/
namespace Retouch.Grammar

/-- What a rule can be. A rank settles which of two readings is tried, and a favour which of two
whole readings is kept. -/
inductive Form where
  | blank
  /-- A token, a rule, or a token found by other means. -/
  | ref (name : String)
  | seq (parts : List Form)
  | choice (parts : List Form)
  /-- Once or more. -/
  | atLeastOne (part : Form)
  | ranked (rank : Int) (part : Form)
  /-- Of two readings of equal rank the one that ends first is taken. -/
  | leftFirst (part : Form)
  | favoured (favour : Int) (part : Form)
  /-- The symbols of the part show under another name. -/
  | shownAs (name : String) (part : Form)

namespace Form

def opt (part : Form) : Form := .choice [part, .blank]

def many (part : Form) : Form := opt (.atLeastOne part)

/-- Once or more, with a separator between two of them. -/
def separated (separator part : Form) : Form := .seq [part, many (.seq [separator, part])]

mutual

/-- A text that tells forms apart. -/
def key : Form → String
  | .blank => "-"
  | .ref name => "'" ++ name ++ "'"
  | .seq parts => "(" ++ keys parts ++ ")"
  | .choice parts => "[" ++ keys parts ++ "]"
  | .atLeastOne part => "+" ++ part.key
  | .ranked rank part => "^" ++ toString rank ++ " " ++ part.key
  | .leftFirst part => "<" ++ part.key
  | .favoured favour part => "!" ++ toString favour ++ " " ++ part.key
  | .shownAs name part => "=" ++ name ++ " " ++ part.key
termination_by structural form => form

def keys : List Form → String
  | [] => ""
  | part :: rest => part.key ++ "," ++ keys rest
termination_by structural parts => parts

end

end Form

/-- A grammar; the first rule is that of whole texts. A name with a leading underscore does not show
in trees. -/
structure Source where
  tokens : List Token
  /-- Tokens that are found by other means than patterns. -/
  outside : List String
  rules : List (String × Form)
  /-- The tokens that may stand anywhere. -/
  extras : List String

/-! ## Symbols -/

/-- Symbols are numbers: zero for the end of the text, then the tokens, the outside tokens and the
rules; the last two stand for what makes no sense. -/
abbrev Symbol := Nat

def endOfText : Symbol := 0

/-- A symbol in a production. -/
structure Step where
  symbol : Symbol
  rank : Option Int
  leftFirst : Bool
  /-- The name that it shows under instead of its own. -/
  shownAs : Option String
  deriving DecidableEq, Hashable, Repr

/-- One row of steps that a rule stands for. -/
structure Production where
  rule : Nat
  steps : List Step
  favour : Int
  deriving DecidableEq, Repr

/-- What surrounds a form while it is unfolded. -/
structure Surroundings where
  rank : Option Int
  leftFirst : Bool
  shownAs : Option String
  /-- Whether the form ends its rule. -/
  last : Bool

/-- A row of steps with its favour. -/
abbrev Row := List Step × Int

def strongerFavour (a b : Int) : Int := if a.natAbs < b.natAbs then b else a

/-- Changes the last step of a row. -/
def mapLast (change : Step → Step) : List Step → List Step
  | [] => []
  | [step] => [change step]
  | step :: rest => step :: mapLast change rest

/-- The names of a grammar in the order of their numbers, and the repetitions found so far. -/
structure Names where
  names : List String
  /-- The key of each repetition and its form. -/
  repeated : List (String × Form)

namespace Names

def numberOf? (names : Names) (name : String) : Option Nat := names.names.idxOf? name

/-- The number of the rule for a repetition, which is added if it is new. -/
def repetition (names : Names) (part : Form) : Names × Symbol :=
  match names.repeated.findIdx? (·.1 == part.key) with
  | some index => (names, names.names.length + index)
  | none =>
    (⟨names.names, names.repeated ++ [(part.key, part)]⟩,
      names.names.length + names.repeated.length)

theorem numberOf?_lt (names : Names) (name : String) (n : Nat)
    (found : names.numberOf? name = some n) : n < names.names.length := by
  unfold numberOf? at found
  exact (List.findIdx?_eq_some_iff_getElem.mp found).1

end Names

mutual

/-- All rows that a form stands for. -/
def rowsOf (names : Names) (around : Surroundings) : Form → List Row
  | .blank => [([], 0)]
  | .ref name =>
    [([⟨(names.numberOf? name).getD 0, around.rank, around.leftFirst, around.shownAs⟩], 0)]
  | .seq parts => rowsOfAll names around parts
  | .choice parts => rowsOfAny names around parts
  | .atLeastOne part =>
    [([⟨(names.repetition part).2, around.rank, around.leftFirst, around.shownAs⟩], 0)]
  | .ranked rank part =>
    (rowsOf names { around with rank := some rank } part).map fun (steps, favour) =>
      (if around.last then steps else mapLast ({ · with rank := around.rank }) steps, favour)
  | .leftFirst part =>
    (rowsOf names { around with leftFirst := true } part).map fun (steps, favour) =>
      (if around.last then steps
        else mapLast ({ · with leftFirst := around.leftFirst }) steps, favour)
  | .favoured favour part =>
    (rowsOf names around part).map fun (steps, inner) => (steps, strongerFavour favour inner)
  | .shownAs name part => rowsOf names { around with shownAs := some name } part
termination_by structural form => form

/-- All rows that forms stand for one behind the other. -/
def rowsOfAll (names : Names) (around : Surroundings) : List Form → List Row
  | [] => [([], 0)]
  | part :: rest =>
    let heads := rowsOf names { around with last := around.last && rest.isEmpty } part
    let tails := rowsOfAll names around rest
    heads.flatMap fun (steps, favour) =>
      tails.map fun (more, other) => (steps ++ more, strongerFavour favour other)
termination_by structural parts => parts

/-- The rows of forms of which one is taken. -/
def rowsOfAny (names : Names) (around : Surroundings) : List Form → List Row
  | [] => []
  | part :: rest => rowsOf names around part ++ rowsOfAny names around rest
termination_by structural parts => parts

end

mutual

/-- Collects the repetitions of a form, inner ones first. -/
def collect (names : Names) : Form → Names
  | .blank => names
  | .ref _ => names
  | .seq parts => collectAll names parts
  | .choice parts => collectAll names parts
  | .atLeastOne part => ((collect names part).repetition part).1
  | .ranked _ part => collect names part
  | .leftFirst part => collect names part
  | .favoured _ part => collect names part
  | .shownAs _ part => collect names part
termination_by structural form => form

def collectAll (names : Names) : List Form → Names
  | [] => names
  | part :: rest => collectAll (collect names part) rest
termination_by structural parts => parts

end

def outerSurroundings : Surroundings := ⟨none, false, none, true⟩

/-- The productions of a grammar with what is known about its symbols. -/
structure Plan where
  automaton : Automaton
  outside : Nat
  /-- The names of the symbols; repetitions have none. -/
  names : Array String
  /-- The number of rules, repetitions included. -/
  rules : Nat
  /-- The number of rules without the repetitions. -/
  named : Nat
  extras : List Symbol
  productions : Array Production

namespace Plan

variable (plan : Plan)

def tokens : Nat := plan.automaton.tokens.size

/-- The number of symbols that are no rules, the end of the text included. -/
def terminals : Nat := 1 + plan.tokens + plan.outside

/-- The symbol of a rule. -/
def ruleSymbol (rule : Nat) : Symbol := plan.terminals + rule

/-- The rule of a symbol, if it is one. -/
def ruleOf? (symbol : Symbol) : Option Nat :=
  if symbol < plan.terminals then none else some (symbol - plan.terminals)

def tokenSymbols : List Symbol := (List.range (1 + plan.tokens)).drop 1

def outsideSymbols : List Symbol := (List.range plan.terminals).drop (1 + plan.tokens)

def isToken (symbol : Symbol) : Bool := 0 < symbol && symbol ≤ plan.tokens

/-- A run of what makes no sense. -/
def noiseRun : Symbol := plan.terminals + plan.rules

/-- What makes no sense. -/
def noise : Symbol := plan.terminals + plan.rules + 1

def isRepetition (rule : Nat) : Bool := plan.named ≤ rule

/-- Whether a symbol shows in trees under its own name. -/
def shows (symbol : Symbol) : Bool :=
  symbol = plan.noise ||
    match plan.names[symbol]? with
    | some name => symbol != endOfText && Token.shows name
    | none => false

end Plan

/-- Unfolds a grammar. -/
def Source.plan (source : Source) : Plan :=
  let names := ["_end"] ++ source.tokens.map Token.name ++ source.outside ++ source.rules.map Prod.fst
  let all := source.rules.foldl (fun found (_, form) => collect found form) ⟨names, []⟩
  let distinct (rows : List Row) := rows.eraseDups
  let named := (distinct <| rowsOf all outerSurroundings ·) <$> source.rules.map Prod.snd
  let repeated := (all.repeated.zipIdx names.length).map fun ((_, part), number) =>
    let itself : Step := ⟨number, none, false, none⟩
    distinct (([itself, itself], 0) :: rowsOf all outerSurroundings part)
  { automaton := .ofTokens source.tokens
    outside := source.outside.length
    names := names.toArray
    rules := source.rules.length + all.repeated.length
    named := source.rules.length
    extras := source.extras.filterMap all.numberOf?
    productions := ((named ++ repeated).zipIdx.flatMap fun (rows, rule) =>
      rows.map fun (steps, favour) => ⟨rule, steps, favour⟩).toArray }

end Retouch.Grammar
