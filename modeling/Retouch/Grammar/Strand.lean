import Retouch.Grammar.Tree

/-!
# Strands of reading

While a text is read, several readings of it can be under way. Each is a strand: it ends in a node of
the stack, from which links with trees lead back to the beginning. Strands that have come to the same
state at the same place share their node, which then has several links.
-/
namespace Retouch.Grammar

/-- A node of the stack. -/
structure StackNode where
  state : Nat
  /-- The nodes before, and the trees between; a link without a tree begins a search for sense. -/
  links : List (Nat × Option Tree) := []
  place : Extent := {}
  cost : Nat := 0
  /-- The number of nodes in the trees so far. -/
  count : Nat := 0
  favour : Int := 0
  deriving Inhabited

/-- Whether a strand is read on. -/
inductive Status where
  | active
  /-- Stopped at a token that makes no sense. -/
  | paused (token : Tree)
  | halted
  deriving Inhabited

/-- A state that a strand has gone through: where, and how many trees ago. -/
structure Passed where
  place : Extent
  depth : Nat
  state : Nat

/-- One of the readings under way; it ends in a node of the stack. -/
structure Strand where
  node : Nat
  status : Status := .active
  /-- The count of its node when it last met a fault. -/
  faultCount : Nat := 0
  passed : List Passed := []
  deriving Inhabited

namespace Strand

def isActive (strand : Strand) : Bool := strand.status matches .active

def isPaused (strand : Strand) : Bool := strand.status matches .paused _

def isHalted (strand : Strand) : Bool := strand.status matches .halted

end Strand

/-- All strands, with the stack that they share. -/
structure Reading where
  nodes : Array StackNode
  strands : Array Strand
  /-- The best tree of the whole text so far. -/
  finished : Option Tree
  /-- How many trees of the whole text there were. -/
  accepted : Nat
  /-- The last token that was found, and where the search began. -/
  token : Option (Nat × Tree)

/-- Strands beyond this number are given up. -/
def strandLimit : Nat := 6

/-- Joining rows of symbols may add so many strands more for the time being. -/
def spareStrands : Nat := 4

/-- A node has so many links at most. -/
def linkLimit : Nat := 8

/-- So many ways back are followed at most. -/
def walkerLimit : Nat := 64

/-- A step of reading. -/
abbrev ReadM := StateM Reading

namespace Reading

def node (reading : Reading) (number : Nat) : StackNode := reading.nodes.getD number { state := 0 }

def strand (reading : Reading) (number : Nat) : Strand :=
  reading.strands.getD number { node := 0, status := .halted }

/-- The node that a strand ends in. -/
def tip (reading : Reading) (number : Nat) : StackNode := reading.node (reading.strand number).node

end Reading

/-- The number of nodes that a tree adds to the count. -/
def Table.countOf (table : Table) (tree : Tree) : Nat :=
  tree.label.shownBelow + (if tree.label.shows then 1 else 0) +
    if tree.symbol == table.plan.noiseRun then 1 else 0

/-- Whether the trees of two links can stand for each other. -/
def interchangeable : Option Tree → Option Tree → Bool
  | none, none => true
  | some a, some b =>
    a.symbol == b.symbol &&
      ((0 < a.cost && 0 < b.cost) ||
        (a.label.gap == b.label.gap && a.label.size == b.label.size &&
          a.parts.length == b.parts.length && a.isExtra == b.isExtra))
  | _, _ => false

/-! ## The stack -/

def treeFavour (tree : Option Tree) : Int := (tree.map fun tree => tree.label.favour).getD 0

/-- The node behind another one. -/
def Table.nodeBehind (table : Table) (number : Nat) (before : StackNode) (tree : Option Tree)
    (state : Nat) : StackNode :=
  { state
    links := [(number, tree)]
    place := before.place + (tree.map Tree.extent).getD {}
    cost := before.cost + (tree.map Tree.cost).getD 0
    count := before.count + (tree.map table.countOf).getD 0
    favour := before.favour + treeFavour tree }

/-- Lets a strand go on with a tree, or without one when it begins to search for sense. -/
def Table.push (table : Table) (strand : Nat) (tree : Option Tree) (state : Nat) : ReadM Unit :=
  modify fun reading =>
    let held := reading.strand strand
    let node := table.nodeBehind held.node (reading.node held.node) tree state
    let faultCount := if tree.isNone then node.count else held.faultCount
    { reading with
      nodes := reading.nodes.push node
      strands := reading.strands.setIfInBounds strand
        { held with node := reading.nodes.size, faultCount } }

/-- What becomes of a node when a link is added to it: which of the links before stands for the new
one already, and how. -/
inductive Joining where
  /-- The same link; the better tree is kept. -/
  | same (links : List (Nat × Option Tree)) (favour : Int)
  /-- A link to a node that takes the links of the new one's node. -/
  | nested (node : Nat)
  | fresh

/-- Looks for a link that stands for a new one. -/
def joiningOf (reading : Reading) (link : Nat × Option Tree) :
    List (Nat × Option Tree) → List (Nat × Option Tree) → Int → Joining
  | _, [], _ => .fresh
  | before, held :: rest, favour =>
    let here := reading.node link.1
    let there := reading.node held.1
    if !interchangeable held.2 link.2 then joiningOf reading link (before ++ [held]) rest favour
    else if held.1 = link.1 then
      if link.2.isSome && treeFavour held.2 < treeFavour link.2 then
        .same (before ++ (held.1, link.2) :: rest) (here.favour + treeFavour link.2)
      else .same (before ++ held :: rest) favour
    else if there.state = here.state && there.place.bytes = here.place.bytes &&
        there.cost = here.cost then .nested held.1
    else joiningOf reading link (before ++ [held]) rest favour

/-- Adds a link to a node; `fuel` bounds how deep shared nodes are joined. -/
def Table.addLink (table : Table) : Nat → Nat → Nat × Option Tree → Reading → Reading
  | 0, _, _, reading => reading
  | fuel + 1, number, link, reading =>
    if link.1 = number then reading
    else
      let node := reading.node number
      let before := reading.node link.1
      match joiningOf reading link [] node.links node.favour with
      | .same links favour =>
        { reading with nodes := reading.nodes.setIfInBounds number { node with links, favour } }
      | .nested inner =>
        let reading := before.links.foldl
          (fun reading link => table.addLink fuel inner link reading) reading
        { reading with
          nodes := reading.nodes.modify number fun node =>
            { node with favour := max node.favour (before.favour + treeFavour link.2) } }
      | .fresh =>
        if node.links.length ≥ linkLimit then reading
        else
          let count := before.count + (link.2.map table.countOf).getD 0
          let favour := before.favour + treeFavour link.2
          { reading with
            nodes := reading.nodes.setIfInBounds number
              { node with
                links := node.links ++ [link]
                count := max node.count count
                favour := max node.favour favour } }

/-! ## Ways back -/

/-- A way back from a strand: where it is, the trees that it has passed, and how many of them count. -/
structure Walker where
  node : Nat
  trees : List Tree
  count : Nat

/-- What to do with a way back. -/
structure Verdict where
  take : Bool
  stop : Bool

/-- A strand that was cut off, and the trees that were cut from it. -/
abbrev Cut := Nat × List Tree

/-- Notes a way that is taken: strands that are cut off at the same node are one. -/
def addCut (origin : Nat) (node : Nat) (trees : List Tree) (cuts : List Cut) : ReadM (List Cut) := do
  let reading ← get
  let same (cut : Cut) : Bool := (reading.strand cut.1).node == node
  match cuts.reverse.find? same with
  | some (strand, _) =>
    let behind := (cuts.reverse.takeWhile fun cut => !same cut).reverse
    return cuts.take (cuts.length - behind.length) ++ (strand, trees) :: behind
  | none =>
    let faultCount := (reading.strand origin).faultCount
    set { reading with strands := reading.strands.push { node, faultCount } }
    return cuts ++ [(reading.strands.size, trees)]

/-- The ways on from one that is not taken: the first link goes on in its place, the others behind all
that are under way. -/
def stepBack (keepTrees : Bool) (walker : Walker) (link : Nat × Option Tree) : Walker :=
  match link.2 with
  | some tree =>
    ⟨link.1, if keepTrees then tree :: walker.trees else walker.trees,
      if tree.isExtra then walker.count else walker.count + 1⟩
  | none => ⟨link.1, walker.trees, walker.count + 1⟩

/-- Takes each way one link further. -/
def stepAll {σ : Type} (origin : Nat) (keepTrees : Bool)
    (visit : σ → StackNode → Walker → σ × Verdict) :
    List Walker → List Walker → List Walker → σ × List Cut → ReadM (List Walker × σ × List Cut)
  | [], kept, added, (seen, cuts) => return (kept.reverse ++ added, seen, cuts)
  | walker :: rest, kept, added, (seen, cuts) => do
    let node := (← get).node walker.node
    let (seen, verdict) := visit seen node walker
    let cuts ← if verdict.take then addCut origin walker.node walker.trees cuts else pure cuts
    match node.links with
    | [] => stepAll origin keepTrees visit rest kept added (seen, cuts)
    | first :: others =>
      if verdict.stop then stepAll origin keepTrees visit rest kept added (seen, cuts)
      else
        let room := walkerLimit - (kept.length + 1 + rest.length + added.length)
        let more := (others.take room).map (stepBack keepTrees walker)
        stepAll origin keepTrees visit rest (stepBack keepTrees walker first :: kept)
          (added ++ more) (seen, cuts)

def walkWithin {σ : Type} (origin : Nat) (keepTrees : Bool)
    (visit : σ → StackNode → Walker → σ × Verdict) :
    Nat → List Walker → σ × List Cut → ReadM (σ × List Cut)
  | 0, _, found => return found
  | _, [], found => return found
  | fuel + 1, walkers, found => do
    let (walkers, found) ← stepAll origin keepTrees visit walkers [] [] found
    walkWithin origin keepTrees visit fuel walkers found

/-- Walks back from a strand on all ways. -/
def walk {σ : Type} (origin : Nat) (keepTrees : Bool) (start : σ)
    (visit : σ → StackNode → Walker → σ × Verdict) : ReadM (σ × List Cut) := do
  let reading ← get
  walkWithin origin keepTrees visit (reading.nodes.size + 1)
    [⟨(reading.strand origin).node, [], 0⟩] (start, [])

/-- Cuts a number of trees that count off a strand. -/
def cutOff (origin count : Nat) : ReadM (List Cut) := do
  let visit (_ : Unit) (_ : StackNode) (walker : Walker) : Unit × Verdict :=
    ((), ⟨walker.count == count, walker.count == count⟩)
  return (← walk origin true () visit).2

/-- Cuts all trees off a strand. -/
def cutAll (origin : Nat) : ReadM (List Cut) := do
  let visit (_ : Unit) (node : StackNode) (_ : Walker) : Unit × Verdict :=
    ((), ⟨node.links.isEmpty, false⟩)
  return (← walk origin true () visit).2

/-! ## The set of strands -/

def removeStrand (number : Nat) : ReadM Unit :=
  modify fun reading => { reading with strands := reading.strands.eraseIdxIfInBounds number }

/-- Puts a strand in the place of an earlier one. -/
def replaceStrand (source target : Nat) : ReadM Unit :=
  if source = target then pure ()
  else modify fun reading =>
    let new := reading.strand source
    let old := reading.strand target
    let new := if new.passed.isEmpty then { new with passed := old.passed } else new
    { reading with strands := (reading.strands.setIfInBounds target new).eraseIdxIfInBounds source }

def setStatus (number : Nat) (status : Status) : ReadM Unit :=
  modify fun reading =>
    { reading with strands := reading.strands.modify number ({ · with status }) }

def canMerge (reading : Reading) (a b : Nat) : Bool :=
  let x := reading.tip a
  let y := reading.tip b
  (reading.strand a).isActive && (reading.strand b).isActive && x.state = y.state &&
    x.place.bytes = y.place.bytes && x.cost = y.cost

/-- Joins the second strand to the first one, if they have come to the same state at the same cost. -/
def Table.merge (table : Table) (a b : Nat) : ReadM Bool := do
  let reading ← get
  if !canMerge reading a b then return false
  let node := (reading.strand a).node
  let joined := (reading.tip b).links.foldl
    (fun reading link => table.addLink reading.nodes.size node link reading) reading
  let tip := joined.node node
  set { joined with
    strands := (joined.strands.modify a fun strand =>
      if tip.state = 0 then { strand with faultCount := tip.count } else strand
      ).eraseIdxIfInBounds b }
  return true

/-- Joins a strand to the first one among others that it can be joined to. -/
def Table.mergeInto (table : Table) (strand : Nat) : List Nat → ReadM Bool
  | [] => return false
  | other :: rest => do
    if ← table.merge other strand then return true
    table.mergeInto strand rest

/-! ## Comparing strands -/

/-- The faults of a strand so far. -/
def faultsOf (reading : Reading) (number : Nat) : Nat :=
  let tip := reading.tip number
  let searching := tip.state = 0 && tip.links.head?.any fun link => link.2.isNone
  tip.cost + if (reading.strand number).isPaused || searching then recoveryCost else 0

/-- How many nodes a strand has read since it last met a fault. -/
def countSinceFault (reading : Reading) (number : Nat) : Nat :=
  (reading.tip number).count - (reading.strand number).faultCount

/-- How good a strand is. -/
structure Standing where
  cost : Nat
  count : Nat
  favour : Int
  /-- Whether it is in the middle of a fault. -/
  inFault : Bool

def standingOf (reading : Reading) (number : Nat) : Standing :=
  let paused := (reading.strand number).isPaused
  ⟨faultsOf reading number + if paused then skippedNodeCost else 0, countSinceFault reading number,
    (reading.tip number).favour, paused || (reading.tip number).state = 0⟩

inductive Preference where
  | takeLeft
  | preferLeft
  | even
  | preferRight
  | takeRight
  deriving DecidableEq, Repr

/-- A strand is given up when its costs are so much higher, the more so the more was read since. -/
def costGap : Nat := 18 * skippedNodeCost

def Standing.compare (a b : Standing) : Preference :=
  if !a.inFault && b.inFault then if a.cost < b.cost then .takeLeft else .preferLeft
  else if a.inFault && !b.inFault then if b.cost < a.cost then .takeRight else .preferRight
  else if a.cost < b.cost then
    if costGap < (b.cost - a.cost) * (1 + a.count) then .takeLeft else .preferLeft
  else if b.cost < a.cost then
    if costGap < (a.cost - b.cost) * (1 + b.count) then .takeRight else .preferRight
  else if b.favour < a.favour then .preferLeft
  else if a.favour < b.favour then .preferRight
  else .even

/-- A strand that was cut back behind its last fault has met it where it is now. -/
def settle (number : Nat) : ReadM Unit :=
  modify fun reading =>
    let count := (reading.tip number).count
    { reading with
      strands := reading.strands.modify number fun strand =>
        { strand with faultCount := min strand.faultCount count } }

/-- The standing of a strand when it is looked at. -/
def standing (number : Nat) : ReadM Standing := do
  settle number
  return standingOf (← get) number

/-- Whether one of some other strands is better than a strand would be. -/
def hasBetterAmong (number : Nat) (own : Standing) : List Nat → ReadM Bool
  | [] => return false
  | other :: rest => do
    let reading ← get
    if other = number || !(reading.strand other).isActive ||
        (reading.tip other).place.bytes < (reading.tip number).place.bytes then
      hasBetterAmong number own rest
    else
      match own.compare (← standing other) with
      | .takeRight => return true
      | .preferRight =>
        if canMerge (← get) other number then return true else hasBetterAmong number own rest
      | _ => hasBetterAmong number own rest

/-- Whether another strand, or a tree of the whole text, is better than a strand would be. -/
def hasBetter (number : Nat) (cost : Nat) : ReadM Bool := do
  let reading ← get
  if reading.finished.any fun tree => tree.cost ≤ cost then return true
  settle number
  let reading ← get
  hasBetterAmong number
    ⟨cost, countSinceFault reading number, (reading.tip number).favour, false⟩
    (List.range reading.strands.size)

/-- Whether a strand has read a character since it last met a fault. -/
def hasAdvanced (reading : Reading) (faultCount : Nat) : Nat → Nat → Bool
  | 0, _ => false
  | fuel + 1, number =>
    match (reading.node number).links with
    | (before, some tree) :: _ =>
      if 0 < tree.extent.chars then true
      else if faultCount < (reading.node number).count && tree.cost = 0 then
        hasAdvanced reading faultCount fuel before
      else false
    | _ => false

def strandHasAdvanced (reading : Reading) (number : Nat) : Bool :=
  (reading.tip number).cost = 0 ||
    hasAdvanced reading (reading.strand number).faultCount reading.nodes.size
      (reading.strand number).node

end Retouch.Grammar
