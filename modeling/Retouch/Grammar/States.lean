import Retouch.Grammar.Form
import Std.Data.HashMap

/-!
# Reading states

A state is a set of productions that are under way, each with the symbols that may follow it. From the
state of an empty text all others are reached by going on behind a symbol. In each state a symbol has
the actions that the productions allow; ranks settle most cases in which there are several.
-/
namespace Retouch.Grammar

/-- A set of symbols that are no rules, as the bits of a number. -/
abbrev SymbolSet := Nat

namespace SymbolSet

def single (symbol : Symbol) : SymbolSet := (1 : Nat) <<< symbol

def contains (set : SymbolSet) (symbol : Symbol) : Bool := Nat.testBit set symbol

def union (a b : SymbolSet) : SymbolSet := a ||| b

def meets (a b : SymbolSet) : Bool := a &&& b != 0

def insert (set : SymbolSet) (symbol : Symbol) : SymbolSet := set ||| (1 : Nat) <<< symbol

def erase (set : SymbolSet) (symbol : Symbol) : SymbolSet :=
  if contains set symbol then set - (1 : Nat) <<< symbol else set

/-- The members below a bound, in rising order. -/
def toList (bound : Nat) (set : SymbolSet) : List Symbol := (List.range bound).filter (contains set)

end SymbolSet

/-- What is done in a state when a symbol comes. -/
inductive Action where
  /-- Takes the symbol and goes to a state. -/
  | shift (state : Nat)
  /-- Takes the symbol within a repetition. This leads nowhere that joining the rows so far would not
  lead to, so it only counts for the table itself. -/
  | shiftAgain (state : Nat)
  /-- Takes the symbol and stays; it belongs to nothing. -/
  | pass
  /-- Joins the last symbols to one of a rule, whose parts show under the names of a given number. -/
  | reduce (rule size : Nat) (favour : Int) (shown : Nat)
  | accept
  /-- Starts or goes on with mending. -/
  | mend
  deriving DecidableEq, Hashable, Repr, Inhabited

/-- What to do in a state. -/
structure State where
  /-- The actions by symbol, for those that are no rules. -/
  actions : Array (List Action)
  /-- The state behind each rule, zero where there is none. -/
  afterRule : Array Nat
  /-- States of the same productions have the same kind. -/
  kind : Nat
  deriving Inhabited

namespace State

def actionsOn (state : State) (symbol : Symbol) : List Action := state.actions.getD symbol []

/-- The symbols, no rules, with which something can be done. -/
def known (state : State) : SymbolSet :=
  (state.actions.foldl
    (fun (set, symbol) actions =>
      (if actions.isEmpty then set else SymbolSet.insert set symbol, symbol + 1))
    ((0 : SymbolSet), 0)).1

end State

/-- The names that the parts of productions show under, one row for each case. -/
abbrev ShownNames := Array (List (Option String))

/-! ## Productions under way -/

/-- A production under way, as far as it matters for the rest of the reading. -/
structure ItemKey where
  rule : Nat
  dot : Nat
  favour : Int
  size : Nat
  /-- What the last symbol that was taken says about ranks. -/
  before : Option (Option Int × Bool)
  shown : List (Option String)
  rest : List Step
  deriving DecidableEq, Hashable

/-- A production under way, with what it says about the rest of the reading. -/
structure Item where
  /-- The production; the reading of the whole text has none. -/
  production : Option Production
  dot : Nat
  /-- The symbol that comes next. -/
  next : Option Symbol
  /-- The symbol behind that one. -/
  second : Option Symbol
  /-- The item behind the next symbol. -/
  onward : Nat
  /-- The number of the names that the parts show under. -/
  shown : Nat
  deriving Inhabited

/-- The items of a plan, with what they are looked up by. -/
structure Items where
  plan : Plan
  items : Array Item
  /-- The items that begin a rule. -/
  beginnings : Array (List Nat)
  shownNames : ShownNames
  /-- The first symbols of each rule that are no rules, and the last ones. -/
  firsts : Array SymbolSet
  lasts : Array SymbolSet

/-- The names of the steps without those at the end that show under their own. -/
def Production.shown (production : Production) : List (Option String) :=
  ((production.steps.map Step.shownAs).reverse.dropWhile Option.isNone).reverse

def Production.keyAt (production : Production) (dot : Nat) : ItemKey :=
  let done := production.steps.take dot
  ⟨production.rule, dot, production.favour, production.steps.length,
    done.getLast?.map fun step => (step.rank, step.leftFirst), done.map Step.shownAs,
    production.steps.drop dot⟩

/-- Grows sets along the productions until nothing is added; `pick` chooses the symbol that counts. -/
def growSets (plan : Plan) (pick : List Step → Option Step) : Array SymbolSet :=
  let round (sets : Array SymbolSet) := plan.productions.foldl
    (fun sets production =>
      match pick production.steps with
      | none => sets
      | some step =>
        let added := match plan.ruleOf? step.symbol with
          | some rule => sets.getD rule 0
          | none => SymbolSet.single step.symbol
        sets.modify production.rule (SymbolSet.union added))
    sets
  (List.range plan.rules).foldl (fun sets _ => round sets) (Array.replicate plan.rules 0)

namespace Items

/-- The items of a plan. The first two are those of the whole text, before and behind it. -/
def ofPlan (plan : Plan) : Items := Id.run do
  let mut shownNames : ShownNames := #[[]]
  let mut items : Array Item :=
    #[⟨none, 0, some (plan.ruleSymbol 0), none, 1, 0⟩, ⟨none, 1, none, none, 1, 0⟩]
  let mut found : Std.HashMap ItemKey Nat := {}
  let mut beginnings : Array (List Nat) := Array.replicate plan.rules []
  for production in plan.productions do
    let size := production.steps.length
    let mut shown := shownNames.size
    match shownNames.findIdx? (· == production.shown) with
    | some index => shown := index
    | none => shownNames := shownNames.push production.shown
    let mut onward := 0
    for back in [0:size + 1] do
      let dot := size - back
      let key := production.keyAt dot
      match found[key]? with
      | some index => onward := index
      | none =>
        let rest := production.steps.drop dot
        found := found.insert key items.size
        items := items.push ⟨some production, dot, rest.head?.map Step.symbol,
          rest.tail.head?.map Step.symbol, onward, shown⟩
        onward := items.size - 1
    let first := onward
    beginnings := beginnings.modify production.rule fun list =>
      if list.contains first then list else list ++ [first]
  return { plan, items, beginnings, shownNames
           firsts := growSets plan List.head?
           lasts := growSets plan List.getLast? }

variable (items : Items)

def item (index : Nat) : Item := items.items.getD index ⟨none, 0, none, none, 0, 0⟩

def firstOf (symbol : Symbol) : SymbolSet :=
  match items.plan.ruleOf? symbol with
  | some rule => items.firsts.getD rule 0
  | none => SymbolSet.single symbol

def lastOf (symbol : Symbol) : SymbolSet :=
  match items.plan.ruleOf? symbol with
  | some rule => items.lasts.getD rule 0
  | none => SymbolSet.single symbol

/-- Items that begin when a rule is expected: with the symbols that can follow each one anyway, and
whether it can be followed by what follows the rule. -/
abbrev Additions := List (Nat × SymbolSet × Bool)

/-- What is known so far about rules that are expected. -/
abbrev Expected := Array (Option (SymbolSet × Bool))

/-- Spreads what can follow the rules that are pending to the rules that they begin with. -/
def spread : Nat → List Nat → Expected → Expected
  | 0, _, expected => expected
  | _, [], expected => expected
  | fuel + 1, rule :: pending, expected =>
    match expected.getD rule none with
    | none => spread fuel pending expected
    | some (follow, through) =>
      let (pending, expected) := (items.beginnings.getD rule []).foldl
        (fun (pending, expected) index =>
          let item := items.item index
          match item.next.bind items.plan.ruleOf? with
          | none => (pending, expected)
          | some inner =>
            let (added, addedThrough) := match item.second with
              | some second => (items.firstOf second, false)
              | none => (follow, through)
            let (held, heldThrough) := (expected.getD inner none).getD (0, false)
            let known := (expected.getD inner none).isSome
            let all := SymbolSet.union held added
            let allThrough := heldThrough || addedThrough
            if known && all == held && allThrough == heldThrough then (pending, expected)
            else (inner :: pending, expected.setIfInBounds inner (some (all, allThrough))))
        (pending, expected)
      spread fuel pending expected

/-- The items that begin when a rule is expected. -/
def additionsOf (rule : Nat) : Additions :=
  let rules := items.plan.rules
  let start := (Array.replicate rules none).setIfInBounds rule (some (0, true))
  let expected := items.spread (rules * items.plan.terminals * rules) [rule] start
  (List.range rules).flatMap fun inner =>
    match expected.getD inner none with
    | none => []
    | some (follow, through) =>
      (items.beginnings.getD inner []).map fun index => (index, follow, through)

end Items

/-! ## Building the states -/

/-- Items with the symbols that may follow them, in the order of the items. -/
abbrev Kernel := List (Nat × SymbolSet)

def Kernel.add (index : Nat) (follow : SymbolSet) : Kernel → Kernel
  | [] => [(index, follow)]
  | entry :: rest =>
    if index < entry.1 then (index, follow) :: entry :: rest
    else if index = entry.1 then (index, SymbolSet.union entry.2 follow) :: rest
    else entry :: Kernel.add index follow rest

/-- A kernel with all items that begin in it; `none` stands for an item that is not there. -/
def Items.closed (items : Items) (additions : Array Items.Additions) (kernel : Kernel) :
    Array (Option SymbolSet) :=
  let put (found : Array (Option SymbolSet)) (index : Nat) (follow : SymbolSet) :=
    found.modify index fun held => some (SymbolSet.union (held.getD 0) follow)
  kernel.foldl
    (fun found (index, follow) =>
      let item := items.item index
      match item.next.bind items.plan.ruleOf? with
      | none => found
      | some rule =>
        let behind := (item.second.map items.firstOf).getD follow
        (additions.getD rule []).foldl
          (fun found (inner, own, through) =>
            put found inner (SymbolSet.union own (if through then behind else 0)))
          found)
    (kernel.foldl (fun found (index, follow) => put found index follow)
      (Array.replicate items.items.size none))

/-- How a state came to its reductions on a symbol. -/
structure Grounds where
  rank : Option Int
  leftFirst : Bool
  /-- Whether some reduction was not marked as left first. -/
  unmarked : Bool

/-- The numbers of the states found so far. -/
structure Building where
  states : Array State
  kernels : Array Kernel
  numbers : Std.HashMap Kernel Nat
  kinds : Std.HashMap (List Nat) Nat

/-- The number of the state of a kernel, which is added if it is new. -/
def Building.stateOf (building : Building) (blank : State) (kernel : Kernel) : Building × Nat :=
  match building.numbers[kernel]? with
  | some number => (building, number)
  | none =>
    let core := kernel.map Prod.fst
    let kind := building.kinds.getD core (building.kinds.size + 1)
    let number := building.states.size
    ({ states := building.states.push { blank with kind }
       kernels := building.kernels.push kernel
       numbers := building.numbers.insert kernel number
       kinds := building.kinds.insertIfNew core kind }, number)

def rankOf (rank : Option Int) : Int := rank.getD 0

/-- The reductions of the items that are complete, by symbol, with their grounds. -/
def Items.reductions (items : Items) (found : Array (Option SymbolSet)) :
    Array (List Action × Option Grounds) :=
  let terminals := items.plan.terminals
  (List.range found.size).foldl
    (fun table index =>
      match found.getD index none, items.item index with
      | some follow, ⟨production, _, none, _, _, shown⟩ =>
        let (action, rank, leftFirst) : Action × Option Int × Bool := match production with
          | none => (.accept, none, false)
          | some p =>
            let last := p.steps.getLast?
            (.reduce p.rule p.steps.length p.favour shown, last.bind Step.rank,
              (last.map Step.leftFirst).getD false)
        (SymbolSet.toList terminals follow).foldl
          (fun table symbol =>
            table.modify symbol fun (actions, grounds) =>
              match grounds with
              | none => ([action], some ⟨rank, leftFirst, !leftFirst⟩)
              | some held =>
                if rankOf held.rank < rankOf rank then
                  ([action], some ⟨rank, leftFirst, !leftFirst⟩)
                else if rankOf rank < rankOf held.rank then (actions, some held)
                else (if actions.contains action then actions else actions ++ [action],
                  some ⟨rank, held.leftFirst || leftFirst, held.unmarked || !leftFirst⟩))
          table
      | _, _ => table)
    (Array.replicate terminals ([], none))

/-- Chooses between the reductions on a symbol and taking it. -/
def Items.resolve (items : Items) (found : Array (Option SymbolSet)) (symbol : Symbol)
    (reductions : List Action) (grounds : Option Grounds) (state : Nat) : List Action :=
  match grounds with
  | none => [.shift state]
  | some grounds =>
    let touching := (List.range found.size).filterMap fun index =>
      match found.getD index none, items.item index with
      | some follow, item =>
        match item.production, item.next with
        | some production, some next =>
          if 0 < item.dot && SymbolSet.contains (items.firstOf next) symbol then
            some (production.rule, (production.steps[item.dot - 1]?).map fun step => step.rank)
          else none
        | some production, none =>
          if SymbolSet.contains follow symbol then some (production.rule, none) else none
        | none, _ => none
      | none, _ => none
    let rules := (touching.map Prod.fst).eraseDups
    let ranks := touching.filterMap Prod.snd
    let higher := ranks.any fun rank => rankOf grounds.rank < rankOf rank
    let lower := ranks.any fun rank => rankOf rank < rankOf grounds.rank
    if rules.length == 1 && rules.all items.plan.isRepetition then
      reductions ++ [.shiftAgain state]
    else if higher && !lower then [.shift state]
    else if lower && !higher then reductions
    else if !higher && !lower && grounds.leftFirst && !grounds.unmarked then reductions
    else reductions ++ [.shift state]

/-- Builds the actions of a state, and the states that it leads to. -/
def Items.addState (items : Items) (additions : Array Items.Additions) (blank : State)
    (building : Building) (number : Nat) : Building :=
  let plan := items.plan
  let kernel := building.kernels.getD number []
  let found := items.closed additions kernel
  let onward : Array Kernel := (List.range found.size).foldl
    (fun onward index =>
      match found.getD index none, items.item index with
      | some follow, ⟨_, _, some next, _, after, _⟩ =>
        onward.modify next (Kernel.add after follow)
      | _, _ => onward)
    (Array.replicate (plan.terminals + plan.rules) [])
  let reductions := items.reductions found
  let actions : Array (List Action) := reductions.map Prod.fst
  let (building, actions) := (plan.outsideSymbols ++ plan.tokenSymbols).foldl
    (fun (building, actions) symbol =>
      match onward.getD symbol [] with
      | [] => (building, actions)
      | kernel =>
        let (building, state) := Building.stateOf building blank kernel
        let (held, grounds) := reductions.getD symbol ([], none)
        (building, actions.setIfInBounds symbol (items.resolve found symbol held grounds state)))
    (building, actions)
  let (building, afterRule) := (List.range plan.rules).foldl
    (fun (building, afterRule) rule =>
      match onward.getD (plan.ruleSymbol rule) [] with
      | [] => (building, afterRule)
      | kernel =>
        let (building, state) := Building.stateOf building blank kernel
        (building, afterRule.setIfInBounds rule state))
    (building, blank.afterRule)
  let actions := plan.extras.foldl
    (fun actions symbol => actions.modify symbol fun held => if held.isEmpty then [.pass] else held)
    actions
  { building with
    states := building.states.modify number fun state => { state with actions, afterRule } }

/-- Builds state after state; `limit` bounds their number. -/
def Items.addStates (items : Items) (additions : Array Items.Additions) (blank : State) :
    Nat → Nat → Building → Building
  | 0, _, building => building
  | limit + 1, number, building =>
    if number < building.states.size then
      items.addStates additions blank limit (number + 1)
        (items.addState additions blank building number)
    else building

/-- More states than any grammar in use has. -/
def stateLimit : Nat := 20000

/-- The states of a grammar. The first one is left empty for the mending of faults, and the second one
is that of the empty text. -/
def Items.states (items : Items) : Array State :=
  let plan := items.plan
  let blank : State := ⟨Array.replicate plan.terminals [], Array.replicate plan.rules 0, 0⟩
  let additions := (Array.range plan.rules).map items.additionsOf
  let building : Building := ⟨#[blank], #[[]], {}, {}⟩
  let (building, first) := building.stateOf blank [(0, SymbolSet.single endOfText)]
  (items.addStates additions blank stateLimit first building).states

end Retouch.Grammar
