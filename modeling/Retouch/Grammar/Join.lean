import Retouch.Grammar.Scan

/-!
# Joining trees

The last trees of a strand are joined to one of a rule. When a strand has several ways back, each row
of trees is a reading of its own; of those that end in the same node the best one is kept: the one with
the least costs, then the one with the most favour, then the one whose symbols come first.
-/
namespace Retouch.Grammar

/-! ## Choosing between trees -/

mutual

/-- The order of trees by their symbols, the number of their parts, and then part by part. -/
def Tree.order : Tree → Tree → Ordering
  | .node a parts, other =>
    (compare a.symbol other.symbol).then
      ((compare parts.length other.parts.length).then (Tree.orderAll parts other.parts))
termination_by structural tree => tree

def Tree.orderAll : List Tree → List Tree → Ordering
  | part :: rest, other :: others => (Tree.order part other).then (Tree.orderAll rest others)
  | _, _ => .eq
termination_by structural parts => parts

end

/-- Whether a tree is taken instead of another one. -/
def Tree.isBetter (new old : Tree) : Bool :=
  if new.cost ≠ old.cost then new.cost < old.cost
  else if new.label.favour ≠ old.label.favour then old.label.favour < new.label.favour
  else if 0 < old.cost then true
  else old.order new == .gt

/-- A row of trees without the extra ones at its end, and those. -/
def splitExtras (trees : List Tree) : List Tree × List Tree :=
  let extras := (trees.reverse.takeWhile Tree.isExtra).reverse
  (trees.take (trees.length - extras.length), extras)

/-! ## Joining symbols -/

namespace Language

variable (language : Language)

/-- The tree of a rule for the best of several rows, with the extra trees behind it. -/
def bestJoin (symbol : Symbol) (names : Nat) (rows : List (List Tree)) : Tree × List Tree :=
  let joined (row : List Tree) := language.table.join symbol (splitExtras row).1 names
  match rows with
  | [] => (language.table.join symbol [] names, [])
  | first :: rest =>
    let best := rest.foldl
      (fun best row => if (joined row).isBetter (joined best) then row else best) first
    (joined best, (splitExtras best).2)

/-- The cuts with the same strand together. -/
def groupCuts : List Cut → List (Nat × List (List Tree))
  | [] => []
  | (strand, trees) :: rest =>
    match groupCuts rest with
    | (other, rows) :: groups =>
      if other = strand then (strand, trees :: rows) :: groups
      else (strand, [trees]) :: (other, rows) :: groups
    | [] => [(strand, [trees])]

/-- Goes on with each group of cuts. `removed` counts the strands that are gone already. -/
def joinCuts (origin : Nat) (rule names : Nat) (favour : Int) (halted : Nat) :
    Nat → List (Nat × List (List Tree)) → ReadM Unit
  | _, [] => pure ()
  | removed, (number, rows) :: rest => do
    let strand := number - removed
    if strandLimit + spareStrands + halted < strand then
      removeStrand strand
      joinCuts origin rule names favour halted (removed + 1) rest
    else
      let symbol := language.table.plan.ruleSymbol rule
      let (tree, extras) := language.bestJoin symbol names rows
      let next := language.table.stateBehind ((← get).tip strand).state symbol
      language.table.push strand (some (tree.favour favour)) next
      for extra in extras do
        language.table.push strand (some extra) next
      let merged ← language.table.mergeInto strand ((List.range strand).filter (· != origin))
      joinCuts origin rule names favour halted (if merged then removed + 1 else removed) rest

/-- Joins the last symbols of a strand to one of a rule. The results are new strands; gives the first of
them. -/
def reduce (origin rule size : Nat) (favour : Int) (names : Nat) : ReadM (Option Nat) := do
  let first := (← get).strands.size
  let cuts ← cutOff origin size
  let halted := ((← get).strands.filter Strand.isHalted).size
  language.joinCuts origin rule names favour halted 0 (groupCuts cuts)
  return if first < (← get).strands.size then some first else none

/-- Joins the last symbols of a strand in all ways that some actions ask for; gives what the last of
them led to. -/
def reduceAll (origin : Nat) (made : Option Nat) : List Action → ReadM (Option Nat)
  | [] => return made
  | .reduce rule size favour names :: rest => do
    reduceAll origin (← language.reduce origin rule size favour names) rest
  | _ :: rest => reduceAll origin made rest

/-- Whether some actions make sense of a symbol. -/
def makesSense (actions : List Action) : Bool :=
  actions.any fun action =>
    match action with
    | .shift _ => true
    | .mend => true
    | _ => false

def isReduction (action : Action) : Bool :=
  match action with
  | .reduce _ size _ _ => 0 < size
  | _ => false

/-- The reductions among some actions, each once for every rule and size. -/
def distinctReductions (actions : List Action) : List Action :=
  actions.foldl
    (fun found action =>
      let same (other : Action) : Bool :=
        match action, other with
        | .reduce rule size _ _, .reduce rule' size' _ _ => rule == rule' && size == size'
        | _, _ => false
      if isReduction action && !found.any same then found ++ [action] else found)
    []

/-- Joins symbols in all ways possible: before a given symbol, or before any. Strands in which the
symbol would still make no sense are dropped. Gives whether it makes sense in any of them. -/
def reduceWithin (start first : Nat) (symbol : Option Symbol) :
    Nat → Nat → Nat → Bool → ReadM Bool
  | 0, _, _, sense => return sense
  | fuel + 1, number, round, sense => do
    let count := (← get).strands.size
    if count ≤ number then return sense
    let earlier := (List.range number).drop first
    if ← language.table.mergeInto number earlier then
      return ← reduceWithin start first symbol fuel number (round + 1) sense
    let state := ((← get).tip number).state
    let symbols := match symbol with
      | some symbol => [symbol]
      | none => (List.range language.table.plan.terminals).drop 1
    let actions := symbols.flatMap (language.table.actionsOn state)
    let sensible := makesSense actions
    let made ← language.reduceAll number none (distinctReductions actions)
    let next := if number = start then count else number + 1
    if sensible then
      reduceWithin start first symbol fuel next (round + 1) true
    else
      match made with
      | some strand =>
        if round < strandLimit then
          replaceStrand strand number
          reduceWithin start first symbol fuel number (round + 1) sense
        else
          if symbol.isSome then removeStrand number
          reduceWithin start first symbol fuel next (round + 1) sense
      | none =>
        if symbol.isSome then removeStrand number
        reduceWithin start first symbol fuel next (round + 1) sense

/-- More rounds than joining symbols can take. -/
def roundLimit : Nat := 1000

def reduceBefore (start : Nat) (symbol : Option Symbol) : ReadM Bool := do
  language.reduceWithin start (← get).strands.size symbol roundLimit start 0 false

/-! ## The end of the text -/

/-- The tree of the whole text: the parts of the last tree that is not extra, with all others around. -/
def wholeTree (trees : List Tree) : Option Tree :=
  let (front, extras) := splitExtras trees
  front.getLast?.map fun root =>
    language.table.join root.symbol (front.dropLast ++ root.parts ++ extras) root.label.names

/-- Takes the end of the text, and keeps the tree if it is the best one. -/
def accept (number : Nat) (token : Tree) : ReadM Unit := do
  language.table.push number (some token) 1
  let cuts ← cutAll number
  for (_, trees) in cuts do
    match language.wholeTree trees with
    | none => pure ()
    | some tree =>
      modify fun reading =>
        { reading with
          accepted := reading.accepted + 1
          finished := match reading.finished with
            | some held => some (if tree.isBetter held then tree else held)
            | none => some tree }
  match cuts with
  | (strand, _) :: _ => removeStrand strand
  | [] => pure ()
  setStatus number .halted

end Language

end Retouch.Grammar
