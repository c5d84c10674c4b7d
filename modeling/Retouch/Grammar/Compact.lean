import Retouch.Grammar.Confusion

/-!
# Compact states

States of the same productions are joined as far as they agree on what is done, and states that only
rename one symbol are left out. This keeps the readings of sound texts as they are, and settles how
early a fault is noticed.
-/
namespace Retouch.Grammar

/-- A division of the states into groups; each state has the number of its group. -/
structure Division where
  groups : Array (List Nat)
  groupOf : Array Nat

namespace Division

/-- The states of the same kind are together. -/
def byKind (states : Array State) : Division :=
  let count := states.foldl (fun count state => max count (state.kind + 1)) 0
  let groups := (List.range states.size).foldl
    (fun groups number =>
      match states[number]? with
      | some state => groups.modify state.kind (number :: ·)
      | none => groups)
    (Array.replicate count [])
  ⟨groups.map List.reverse, states.map State.kind⟩

def group (division : Division) (state : Nat) : Nat := division.groupOf.getD state 0

/-- Puts a state behind the first one that it differs from, or at the end when there is none. -/
def place (differ : Nat → Nat → Bool) (state : Nat) :
    List (Nat × List Nat) → List (Nat × List Nat)
  | [] => [(state, [])]
  | (held, others) :: rest =>
    if differ held state then (held, others ++ [state]) :: rest
    else (held, others) :: place differ state rest

/-- Splits off the states of one group that differ from an earlier one that stays. -/
def splitOff (differ : Nat → Nat → Bool) (states : List Nat) : List Nat × List Nat :=
  let placed := states.foldl (fun placed state => place differ state placed) []
  (placed.map Prod.fst, placed.flatMap Prod.snd)

/-- Splits the groups from a number on; a part that is split off becomes a group, which is then split
in turn. `fuel` bounds the number of groups. -/
def splitFrom (differ : Division → Nat → Nat → Bool) :
    Nat → Nat → Division → Bool → Division × Bool
  | 0, _, division, changed => (division, changed)
  | fuel + 1, number, division, changed =>
    match division.groups[number]? with
    | none => (division, changed)
    | some states =>
      match splitOff (differ division) states with
      | (_, []) => splitFrom differ fuel (number + 1) division changed
      | (kept, split) =>
        let groups := (division.groups.setIfInBounds number kept).push split
        let groupOf := split.foldl
          (fun groupOf state => groupOf.setIfInBounds state division.groups.size) division.groupOf
        splitFrom differ fuel (number + 1) ⟨groups, groupOf⟩ true

/-- Splits all groups once. -/
def split (differ : Division → Nat → Nat → Bool) (division : Division) : Division × Bool :=
  splitFrom differ (division.groupOf.size + division.groups.size + 1) 0 division false

/-- Splits the groups until none differs in itself. -/
def splitAll (differ : Division → Nat → Nat → Bool) : Nat → Division → Division
  | 0, division => division
  | fuel + 1, division =>
    match split differ division with
    | (division, true) => splitAll differ fuel division
    | (division, false) => division

end Division

/-! ## What sets states apart -/

/-- What is needed to compare states: the states and the tokens that they know. -/
structure Comparison where
  plan : Plan
  states : Array State
  known : Array SymbolSet
  /-- The tokens that cannot be looked for together with each one. -/
  excluded : Array SymbolSet

namespace Comparison

def ofStates (plan : Plan) (confusion : Confusion) (states : Array State) : Comparison :=
  { plan, states, known := states.map State.known
    excluded := (Array.range plan.terminals).map fun symbol =>
      confusion.clashing.getD symbol 0 }

variable (comparison : Comparison)

def state (number : Nat) : State := comparison.states.getD number ⟨#[], #[], 0⟩

/-- Whether two actions do the same up to groups of states. -/
def sameAction (division : Division) : Action → Action → Bool
  | .shift a, .shift b => division.group a = division.group b
  | .shiftAgain a, .shiftAgain b => division.group a = division.group b
  | a, b => a == b

/-- Whether a state that does not know a symbol would be misled by learning it. -/
def isMisled (symbol : Symbol) (known : SymbolSet) : Bool :=
  if symbol = endOfText then false
  else if comparison.plan.isToken symbol then
    SymbolSet.meets (comparison.excluded.getD symbol 0) known
  else true

/-- Whether two states do different things on a symbol. -/
def clash (division : Division) (left right : Nat) : Bool :=
  let a := comparison.state left
  let b := comparison.state right
  (List.range comparison.plan.terminals).any fun symbol =>
    match a.actionsOn symbol, b.actionsOn symbol with
    | [], [] => false
    | [], _ => comparison.isMisled symbol (comparison.known.getD left 0)
    | _, [] => comparison.isMisled symbol (comparison.known.getD right 0)
    | x, y => x.length != y.length || (x.zip y).any fun (p, q) => !sameAction division p q

def target? : List Action → Option Nat
  | actions =>
    match actions.getLast? with
    | some (.shift state) => some state
    | some (.shiftAgain state) => some state
    | _ => none

/-- Whether two states lead to different groups behind a symbol. -/
def part (division : Division) (left right : Nat) : Bool :=
  let a := comparison.state left
  let b := comparison.state right
  ((List.range comparison.plan.terminals).any fun symbol =>
    match target? (a.actionsOn symbol), target? (b.actionsOn symbol) with
    | some x, some y => division.group x != division.group y
    | _, _ => false) ||
  (List.range comparison.plan.rules).any fun rule =>
    let x := a.afterRule.getD rule 0
    let y := b.afterRule.getD rule 0
    x != 0 && y != 0 && division.group x != division.group y

end Comparison

/-! ## Joining and leaving out -/

def Action.redirect (moved : Nat → Nat) : Action → Action
  | .shift state => .shift (moved state)
  | .shiftAgain state => .shiftAgain (moved state)
  | action => action

/-- Sends all ways out of a state to other states. -/
def State.redirect (state : State) (moved : Nat → Nat) : State :=
  { state with
    actions := state.actions.map (·.map (Action.redirect moved))
    afterRule := state.afterRule.map fun target => if target = 0 then 0 else moved target }

/-- What either state does; where both do something, what the second one does. -/
def State.merge (a b : State) : State :=
  { a with
    actions := a.actions.mapIdx fun symbol actions =>
      match b.actionsOn symbol with
      | [] => actions
      | other => other
    afterRule := a.afterRule.mapIdx fun rule target =>
      match b.afterRule.getD rule 0 with
      | 0 => target
      | other => other }

/-- The states of each group as one. The group of the first state comes first, then that of the second
one, then all others. -/
def joinGroups (states : Array State) (division : Division) : Array State :=
  let first := division.group 0
  let second := division.group 1
  let order := first :: second :: (List.range division.groups.size).filter fun group =>
    group != first && group != second && !(division.groups.getD group []).isEmpty
  let numbers := (order.zipIdx).foldl
    (fun numbers (group, number) => numbers.setIfInBounds group number)
    (Array.replicate division.groups.size 0)
  let joined : List State := order.map fun group =>
    let members := (division.groups.getD group []).map fun state => states.getD state ⟨#[], #[], 0⟩
    match members with
    | [] => ⟨#[], #[], 0⟩
    | state :: rest => rest.foldl State.merge state
  (joined.map fun state => state.redirect fun target =>
    numbers.getD (division.group target) 0).toArray

/-- The rule that a state renames one symbol to, if it does nothing else. -/
def State.renaming? (plan : Plan) (renamed : Array Bool) (state : State) : Option Nat :=
  let all := state.actions.toList.flatten
  let rules := all.map fun action =>
    match action with
    | .pass => none
    | .reduce rule 1 favour 0 =>
      if favour == 0 && !renamed.getD (plan.ruleSymbol rule) false &&
          !plan.shows (plan.ruleSymbol rule) then some (some rule)
      else some none
    | _ => some none
  match rules.filterMap id with
  | some rule :: rest => if rest.all (· == some rule) then some rule else none
  | _ => none

/-- Sends ways to a state that only renames on to the state behind the new name. -/
def State.skipRenaming (renames : Array (Option Nat)) : Nat → State → State
  | 0, state => state
  | fuel + 1, state =>
    let isDone (target : Nat) : Bool := (renames.getD target none).isNone
    if state.afterRule.all isDone &&
        state.actions.all fun actions => (actions.filterMap (Comparison.target? [·])).all isDone then
      state
    else
      let redirected (target : Nat) : Nat :=
        match renames.getD target none with
        | some rule => state.afterRule.getD rule 0
        | none => target
      skipRenaming renames fuel (state.redirect redirected)

/-- The states that ways lead to from those that are used, and so on. -/
def usedStates (states : Array State) : Nat → Array Bool → Array Bool
  | 0, used => used
  | fuel + 1, used =>
    let next := (List.range states.size).foldl
      (fun next number =>
        if !used.getD number false then next
        else
          let state := states.getD number ⟨#[], #[], 0⟩
          let next := state.actions.foldl
            (fun next actions => (actions.filterMap (Comparison.target? [·])).foldl
              (fun next target => next.setIfInBounds target true) next) next
          state.afterRule.foldl (fun next target => next.setIfInBounds target true) next)
      ((Array.replicate states.size false).setIfInBounds 0 true |>.setIfInBounds 1 true)
    if next == used then used else usedStates states fuel next

/-- Keeps some states, in an order, and numbers them anew. -/
def keepStates (states : Array State) (order : List Nat) : Array State :=
  let numbers := order.zipIdx.foldl
    (fun numbers (state, number) => numbers.setIfInBounds state number)
    (Array.replicate states.size 0)
  (order.map fun number => (states.getD number ⟨#[], #[], 0⟩).redirect
    fun target => numbers.getD target 0).toArray

def State.size (state : State) : Nat :=
  state.actions.foldl (fun n actions => if actions.isEmpty then n else n + 1) 0 +
    state.afterRule.foldl (fun n target => if target = 0 then n else n + 1) 0

/-- The fewest states that do the same; large ones come first. -/
def compact (plan : Plan) (confusion : Confusion) (states : Array State) : Array State :=
  let comparison := Comparison.ofStates plan confusion states
  let division := (Division.split comparison.clash (.byKind states)).1
  let division := Division.splitAll comparison.part states.size division
  let joined := joinGroups states division
  let renamed := plan.productions.foldl
    (fun renamed production => production.steps.foldl
      (fun renamed step =>
        if step.shownAs.isSome then renamed.setIfInBounds step.symbol true else renamed) renamed)
    (Array.replicate (plan.terminals + plan.rules) false)
  let renames := joined.mapIdx fun number state =>
    if number = 0 then none else state.renaming? plan renamed
  let direct := joined.map (State.skipRenaming renames joined.size)
  let used := usedStates direct direct.size (Array.replicate direct.size true)
  let kept := keepStates direct ((List.range direct.size).filter fun number =>
    used.getD number false)
  let rest := ((List.range kept.size).drop 2).mergeSort fun a b =>
    (kept.getD b ⟨#[], #[], 0⟩).size ≤ (kept.getD a ⟨#[], #[], 0⟩).size
  keepStates kept (0 :: 1 :: rest)

end Retouch.Grammar
