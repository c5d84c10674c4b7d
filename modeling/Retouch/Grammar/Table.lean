import Retouch.Grammar.Compact

/-!
# The reading table

All that reading needs to know about a grammar: the actions of the states, and for each state the
tokens that are looked for. States whose tokens do not disturb each other look for the same tokens.
-/
namespace Retouch.Grammar

/-- A state of the search for a token. -/
structure Cursor where
  /-- The token that can end here. -/
  token : Option Symbol
  /-- The characters that lead on, where they lead, and whether they still stand before the token. -/
  onward : List (CharSet × Nat × Bool)
  deriving Inhabited

/-- The cursors found so far, and the places in the automaton that they stand for. -/
structure Search where
  cursors : Array Cursor
  places : Array (List Nat)
  numbers : Std.HashMap (List Nat) Nat

namespace Search

/-- The cursor for some places, which is added if it is new. -/
def cursorOf (search : Search) (places : List Nat) : Search × Nat :=
  match search.numbers[places]? with
  | some number => (search, number)
  | none =>
    let number := search.cursors.size
    (⟨search.cursors.push ⟨none, []⟩, search.places.push places, search.numbers.insert places number⟩,
      number)

/-- Finds out what a cursor leads to. -/
def complete (automaton : Automaton) (search : Search) (number : Nat) : Search :=
  let places := search.places.getD number []
  let ended := automaton.winner places
  let before := automaton.isBeforeToken places
  let ways := (automaton.ways places).filter fun way =>
    ended.all fun token => automaton.prefersWay way token before
  let (search, onward) := ways.foldl
    (fun (search, onward) way =>
      let (search, target) := cursorOf search way.target
      (search, onward ++ [(way.set, target, way.blank)]))
    (search, [])
  { search with
    cursors := search.cursors.setIfInBounds number ⟨ended.map Prod.fst, onward⟩ }

/-- Completes cursor after cursor; `limit` bounds their number. -/
def completeFrom (automaton : Automaton) : Nat → Nat → Search → Search
  | 0, _, search => search
  | limit + 1, number, search =>
    if number < search.cursors.size then
      completeFrom automaton limit (number + 1) (complete automaton search number)
    else search

/-- More cursors than any grammar in use has. -/
def limit : Nat := 20000

end Search

/-- What is looked for in some states: the cursor to begin with, and whether the end of the text is
looked for, too. -/
structure Sight where
  cursor : Nat
  seesEnd : Bool
  deriving Inhabited

/-- The states of a grammar and the tokens that each of them looks for. -/
structure Table where
  plan : Plan
  states : Array State
  shownNames : ShownNames
  cursors : Array Cursor
  sights : Array Sight
  /-- The sight of each state. -/
  sightOf : Array Nat
  /-- The outside tokens that each state knows. -/
  outsideOf : Array SymbolSet
  /-- The symbols that a state would have found itself, too, if another state found them. -/
  certainOf : Array SymbolSet
  /-- The symbols that show in trees, those included that always do so under another name. -/
  showing : Array Bool
  /-- The other name of those that always show under one. -/
  renamed : Array (Option String)


/-- The tokens that no state looks for together with each one unless it knows both. -/
def apart (plan : Plan) (confusion : Confusion) : Array SymbolSet :=
  (Array.range plan.terminals).map fun token =>
    plan.tokenSymbols.foldl
      (fun set other =>
        let overlap := SymbolSet.contains (confusion.overlapping.getD token 0) other ||
          SymbolSet.contains (confusion.overlapping.getD other 0) token
        if confusion.clashes token other ||
            SymbolSet.contains (confusion.shorter.getD token 0) other ||
            (!confusion.areTogether token other && overlap) then
          SymbolSet.insert set other
        else set)
      0

/-- Joins the sets of tokens that states look for where that misleads none of them. Gives the sets and
the number of the set of each state. -/
def shareSights (plan : Plan) (apart : Array SymbolSet) (wanted : Array SymbolSet) :
    Array SymbolSet × Array Nat :=
  let fits (a b : SymbolSet) : Bool := plan.tokenSymbols.all fun token =>
    match SymbolSet.contains a token, SymbolSet.contains b token with
    | true, false => !SymbolSet.meets (apart.getD token 0) b
    | false, true => !SymbolSet.meets (apart.getD token 0) a
    | _, _ => true
  wanted.foldl
    (fun (sets, sightOf) set =>
      match sets.findIdx? (fits · set) with
      | some number => (sets.modify number (SymbolSet.union set), sightOf.push number)
      | none => (sets.push set, sightOf.push sets.size))
    (#[], #[])

/-- The other name of each symbol that always shows under one. -/
def alwaysRenamed (plan : Plan) : Array (Option String) :=
  (Array.range (plan.terminals + plan.rules)).map fun symbol =>
    let names := plan.productions.toList.flatMap fun production =>
      (production.steps.filter (·.symbol == symbol)).map Step.shownAs
    if names.all Option.isSome then names.head?.bind id else none

/-- Finds out all that reading needs to know about a grammar. -/
def Table.ofSource (source : Source) : Table :=
  let plan := source.plan
  let items := Items.ofPlan plan
  let raw := items.states
  let confusion := Confusion.ofStates items raw
  let states := compact plan confusion (fillFirstState plan confusion raw)
  let tokens : SymbolSet := plan.tokenSymbols.foldl SymbolSet.insert (SymbolSet.single endOfText)
  let outside : SymbolSet := plan.outsideSymbols.foldl SymbolSet.insert 0
  let known := states.map State.known
  let wanted := known.map fun set => set &&& tokens
  let (sets, sightOf) := shareSights plan (apart plan confusion) wanted
  let (search, sights) := sets.foldl
    (fun (search, sights) set =>
      let starts := (plan.tokenSymbols.filter (SymbolSet.contains set)).map plan.automaton.start
      let (search, cursor) := Search.cursorOf search (plan.automaton.closure starts)
      (search, sights.push ⟨cursor, SymbolSet.contains set endOfText⟩))
    ((⟨#[], #[], {}⟩ : Search), #[])
  let search := search.completeFrom plan.automaton Search.limit 0
  let renamed := alwaysRenamed plan
  { plan, states, sightOf, sights
    shownNames := items.shownNames
    cursors := search.cursors
    outsideOf := known.map fun set => set &&& outside
    certainOf := known.map fun set =>
      (List.range plan.terminals).foldl
        (fun certain symbol =>
          if SymbolSet.contains set symbol &&
              !(plan.isToken symbol && plan.tokenSymbols.any fun other =>
                other != symbol && SymbolSet.contains set other &&
                  SymbolSet.contains (confusion.overlapping.getD other 0) symbol) then
            SymbolSet.insert certain symbol
          else certain)
        0
    showing := (Array.range (plan.noise + 1)).map fun symbol =>
      plan.shows symbol || (renamed.getD symbol none).isSome
    renamed }

end Retouch.Grammar
