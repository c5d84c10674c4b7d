import Retouch.Grammar.Join

/-!
# Reading with mended faults

A text is read along the actions of the table. At a token that makes no sense the reading is mended: a
token that may be missing is put in, or the reading goes back to a state in which the token makes sense,
or the token is skipped. Of all readings the one with the least costs is kept.
-/
namespace Retouch.Grammar.Language

variable (language : Language)

/-! ## Going back -/

/-- States are looked for so many trees back at most. -/
def depthLimit : Nat := 16

/-- Notes the states that a strand has gone through. -/
def notePassed (strand : Nat) : ReadM Unit := do
  let visit (passed : List Passed) (node : StackNode) (walker : Walker) : List Passed × Verdict :=
    let known := (passed.reverse.takeWhile fun entry => walker.count ≤ entry.depth).any fun entry =>
      entry.depth == walker.count && entry.state == node.state
    if depthLimit < walker.count then (passed, ⟨false, true⟩)
    else if known then (passed, ⟨false, false⟩)
    else (passed ++ [⟨node.place, walker.count, node.state⟩], ⟨false, false⟩)
  let (passed, _) ← walk strand false [] visit
  modify fun reading =>
    { reading with strands := reading.strands.modify strand ({ · with passed }) }

/-- Takes the noise off a strand that stands before it. -/
def cutNoise (strand : Nat) : ReadM (List Tree) := do
  let isNoise (tree : Tree) : Bool := tree.symbol == language.table.plan.noise
  let visit (found : Bool) (_ : StackNode) (walker : Walker) : Bool × Verdict :=
    match walker.trees with
    | [] => (found, ⟨false, false⟩)
    | tree :: _ =>
      if !found && isNoise tree then (true, ⟨true, true⟩) else (found, ⟨false, true⟩)
  if ((← get).tip strand).links.any fun link => link.2.any isNoise then
    let (_, cuts) ← walk strand true false visit
    match cuts with
    | (cut, trees) :: _ =>
      replaceStrand cut strand
      return trees
    | [] => return []
  else return []

/-- Goes on from cuts that lead to a state, with all that was cut off as noise. -/
def resumeCuts (goal : Nat) : List Cut → Option Nat → ReadM (Option Nat)
  | [], last => return last
  | (strand, trees) :: rest, last => do
    if last == some strand then resumeCuts goal rest last
    else if ((← get).tip strand).state ≠ goal then
      setStatus strand .halted
      resumeCuts goal rest last
    else
      let noise ← language.cutNoise strand
      let inner := (noise.head?.map Tree.parts).getD []
      let (front, extras) := splitExtras (inner ++ trees)
      if !front.isEmpty then
        let tree := (language.table.join language.table.plan.noise front 0).asExtra true
        language.table.push strand (some tree) goal
      for extra in extras do
        language.table.push strand (some extra) goal
      resumeCuts goal rest (some strand)

/-- Goes back to a state that a strand has gone through. -/
def goBack (strand depth goal : Nat) : ReadM Bool := do
  let cuts ← cutOff strand depth
  return (← language.resumeCuts goal cuts none).isSome

/-- Goes back to the nearest state in which a token makes sense, unless all such ways cost too much. -/
def goBackFor (strand : Nat) (token : Tree) (cost : Nat) (counted : Bool) (others : Nat) :
    List Passed → ReadM Bool
  | [] => return false
  | entry :: rest => do
    let reading ← get
    let place := (reading.tip strand).place
    let isTaken := (List.range others).any fun other =>
      let tip := reading.tip other
      tip.state == entry.state && tip.place.bytes == place.bytes
    if entry.state = 0 || entry.place.bytes = place.bytes || isTaken then
      goBackFor strand token cost counted others rest
    else
      let total := cost + entry.depth * skippedNodeCost + skippedCost (.between entry.place place)
      if ← hasBetter strand total then return false
      let depth := entry.depth + if counted then 1 else 0
      if !(language.table.actionsOn entry.state token.symbol).isEmpty then
        if ← language.goBack strand depth entry.state then return true
      goBackFor strand token cost counted others rest

/-- Removes the strands behind a number that are not active. -/
def removeInactive : Nat → Nat → ReadM Unit
  | 0, _ => pure ()
  | fuel + 1, number => do
    let reading ← get
    if number < reading.strands.size then
      if (reading.strand number).isActive then removeInactive fuel (number + 1)
      else
        removeStrand number
        removeInactive fuel number

/-- Removes strands at the end until a number of them is left. -/
def keepStrands (count : Nat) : ReadM Unit :=
  modify fun reading => { reading with strands := reading.strands.extract 0 count }

/-- Skips a token: it becomes part of the noise. -/
def skip (strand : Nat) (token : Tree) (counted : Bool) : ReadM Unit := do
  let plan := language.table.plan
  let isFree := (language.table.actionsOn 1 token.symbol).getLast? == some .pass
  let token := if isFree then token.asExtra true else token
  let run := language.table.join plan.noiseRun [token] 0
  if counted then
    let cuts ← cutOff strand 1
    match cuts with
    | (cut, trees) :: _ =>
      if 1 < cuts.length then keepStrands (cut + 1)
      replaceStrand cut strand
      language.table.push strand
        (some (language.table.join plan.noiseRun (trees ++ [run]) 0)) 0
    | [] => language.table.push strand (some run) 0
  else language.table.push strand (some run) 0

/-- Mends a strand at a token that makes no sense in it. -/
def mend (strand : Nat) (token : Tree) : ReadM Unit := do
  let plan := language.table.plan
  let others := (← get).strands.size
  settle strand
  let reading ← get
  let counted := 0 < countSinceFault reading strand
  let cost := faultsOf reading strand
  let wentBack ←
    if token.symbol = plan.noise then pure false
    else language.goBackFor strand token cost counted others (reading.strand strand).passed
  removeInactive ((← get).strands.size) others
  if wentBack && strandLimit < (← get).strands.size then
    setStatus strand .halted
  else if token.symbol = endOfText then
    language.table.push strand (some (language.table.join plan.noise [] 0)) 1
    language.accept strand token
  else if ← hasBetter strand (cost + skippedNodeCost + skippedCost token.extent) then
    setStatus strand .halted
  else language.skip strand token counted

/-! ## Missing tokens -/

/-- Puts in the first token that may be missing in a strand, so that a symbol makes sense behind it. -/
def putMissing (strand : Nat) (symbol : Symbol) : List Symbol → ReadM Bool
  | [] => return false
  | missing :: rest => do
    let reading ← get
    let state := (reading.tip strand).state
    let next := language.table.stateBehind state missing
    match language.table.actionsOn next symbol with
    | .reduce .. :: _ =>
      if next = 0 || next = state then putMissing strand symbol rest
      else
        let copy := reading.strands.size
        set { reading with
          strands := reading.strands.push { reading.strand strand with passed := [] } }
        language.table.push copy (some (language.table.missing missing)) next
        if ← language.reduceBefore copy (some symbol) then return true
        putMissing strand symbol rest
    | _ => putMissing strand symbol rest

/-- Lets each strand search for sense; in the first one in which that works a missing token is put in,
too. -/
def openSearch (symbol : Symbol) : List Nat → Bool → ReadM Unit
  | [], _ => pure ()
  | strand :: rest, done => do
    let done ← if done then pure true
      else language.putMissing strand symbol ((List.range language.table.plan.terminals).drop 1)
    language.table.push strand none 0
    openSearch symbol rest done

/-- Mends a strand at a token that it was stopped at: first all that may be joined is joined. -/
def handleFault (strand : Nat) (token : Tree) : ReadM Unit := do
  let before := (← get).strands.size
  let _ ← language.reduceBefore strand none
  let count := (← get).strands.size
  let made := (List.range count).drop before
  language.openSearch token.firstSymbol (strand :: made) false
  for _ in made do
    let _ ← language.table.merge strand before
  notePassed strand
  language.mend strand token

/-! ## Going on -/

/-- What a strand does with a token. -/
inductive Progress where
  /-- It has come to an end for now. -/
  | done
  /-- It goes on with the same token in another state. -/
  | again
  deriving DecidableEq

/-- Does the actions of a strand on a token, up to the first that is no reduction. -/
def act (strand : Nat) (token : Tree) : List Action → Option Nat → Bool → ReadM Progress
  | [], made, joined => do
    match made with
    | some last =>
      replaceStrand last strand
      return .again
    | none =>
      if joined then
        setStatus strand .halted
        return .done
      else if ((← get).tip strand).state = 0 then
        language.mend strand token
        return .done
      else
        modify fun reading =>
          let count := (reading.tip strand).count
          { reading with
            strands := reading.strands.modify strand
              ({ · with status := .paused token, faultCount := count }) }
        return .done
  | .shift next :: _, _, _ => do
    language.table.push strand (some (token.asExtra false)) next
    return .done
  | .shiftAgain _ :: rest, made, joined => act strand token rest made joined
  | .pass :: _, _, _ => do
    let state := ((← get).tip strand).state
    language.table.push strand (some (token.asExtra true)) state
    return .done
  | .accept :: _, _, _ => do
    language.accept strand token
    return .done
  | .mend :: _, _, _ => do
    language.mend strand token
    return .done
  | .reduce rule size favour names :: rest, made, _ => do
    match ← language.reduce strand rule size favour names with
    | some last => act strand token rest (some last) true
    | none => act strand token rest made true

/-- Lets a strand go on with a token until it has taken it; `fuel` bounds the number of rows joined. -/
def actOn (strand : Nat) (token : Tree) : Nat → ReadM Unit
  | 0 => setStatus strand .halted
  | fuel + 1 => do
    let state := ((← get).tip strand).state
    match ← language.act strand token (language.table.actionsOn state token.symbol) none false with
    | .done => pure ()
    | .again => actOn strand token fuel

/-- Lets a strand take the next token. -/
def advance (page : Page) (strand : Nat) : ReadM Unit := do
  let reading ← get
  let tip := reading.tip strand
  let kept := reading.token.bind fun (offset, token) =>
    if offset = tip.place.chars && language.canReuse tip.state token then some token else none
  let token := kept.getD
    (language.scan page tip.state tip.place.chars (strandHasAdvanced reading strand))
  if kept.isNone then
    modify fun reading => { reading with token := some (tip.place.chars, token) }
  language.actOn strand token roundLimit

/-- Lets a strand go on until it is ahead of all others; `fuel` bounds the number of tokens. -/
def advanceAhead (page : Page) (strand : Nat) : Nat → Nat → ReadM Nat
  | 0, furthest => return furthest
  | fuel + 1, furthest => do
    if (← get).strands.size ≤ strand || !((← get).strand strand).isActive then return furthest
    language.advance page strand
    let place := ((← get).tip strand).place.bytes
    if furthest < place || (0 < strand && place = furthest) then return place
    advanceAhead page strand fuel furthest

/-- Lets all strands go on, also those that are added meanwhile. -/
def advanceAll (page : Page) : Nat → Nat → Nat → ReadM Nat
  | 0, _, furthest => return furthest
  | fuel + 1, strand, furthest => do
    if (← get).strands.size ≤ strand then return furthest
    let furthest ← language.advanceAhead page strand (page.codes.size + roundLimit) furthest
    advanceAll page fuel (strand + 1) furthest

/-! ## Thinning out the strands -/

/-- Compares a strand with those before it; gives its new number, or the one before when it is gone. -/
def contest : Nat → Nat → Nat → ReadM (Option Nat)
  | 0, strand, _ => return some strand
  | fuel + 1, strand, other => do
    if strand ≤ other then return some strand
    let left ← standing other
    let right ← standing strand
    match left.compare right with
    | .takeLeft =>
      removeStrand strand
      return none
    | .preferLeft =>
      if ← language.table.merge other strand then return none
      contest fuel strand (other + 1)
    | .even =>
      if ← language.table.merge other strand then return none
      contest fuel strand (other + 1)
    | .preferRight =>
      if ← language.table.merge other strand then return none
      modify fun reading =>
        let a := reading.strand other
        let b := reading.strand strand
        { reading with
          strands := (reading.strands.setIfInBounds other b).setIfInBounds strand a }
      contest fuel strand (other + 1)
    | .takeRight =>
      removeStrand other
      contest fuel (strand - 1) other

/-- Compares all strands from a number on; gives the least cost of those outside of faults. -/
def contestAll : Nat → Nat → Option Nat → ReadM (Option Nat)
  | 0, _, least => return least
  | fuel + 1, strand, least => do
    let reading ← get
    if reading.strands.size ≤ strand then return least
    if (reading.strand strand).isHalted then
      removeStrand strand
      contestAll fuel strand least
    else
      let own ← standing strand
      let least := if own.inFault then least else some (min own.cost (least.getD own.cost))
      match ← language.contest (reading.strands.size + strand + 1) strand 0 with
      | some strand => contestAll fuel (strand + 1) least
      | none => contestAll fuel strand least

/-- Goes on with the first paused strand unless one is active before it, and drops all others. -/
def resume : Nat → Nat → Nat → Bool → Option Nat → ReadM (Option Nat)
  | 0, _, _, _, least => return least
  | fuel + 1, strand, count, active, least => do
    if count ≤ strand then return least
    let reading ← get
    match (reading.strand strand).status with
    | .paused token =>
      if !active && reading.accepted < strandLimit then
        let faults := faultsOf reading strand
        setStatus strand .active
        language.handleFault strand token
        resume fuel (strand + 1) count true (some faults)
      else
        removeStrand strand
        resume fuel strand (count - 1) active least
    | _ => resume fuel (strand + 1) count true least

/-- Keeps the best strands; gives the least cost of those outside of faults. -/
def thinOut : ReadM (Option Nat) := do
  let least ← language.contestAll (2 * (← get).strands.size + 1) 0 none
  keepStrands strandLimit
  let count := (← get).strands.size
  language.resume count 0 count false least

/-! ## The whole text -/

/-- Reads token after token; `fuel` bounds their number. -/
def readOn (page : Page) : Nat → Nat → ReadM Unit
  | 0, _ => pure ()
  | fuel + 1, furthest => do
    let count := (← get).strands.size
    let furthest ← language.advanceAll page (count + roundLimit) 0 furthest
    let none := (← get).strands.isEmpty
    let least ← language.thinOut
    let isBest := (← get).finished.any fun tree => least.all fun cost => tree.cost < cost
    if none || isBest then pure () else readOn page fuel furthest

/-- The best tree of a text. -/
def read? (text : List Char) : Option Tree :=
  let page := Page.ofChars text
  let start : Reading :=
    { nodes := #[{ state := 1 }], strands := #[{ node := 0 }], finished := none, accepted := 0
      token := none }
  ((language.readOn page (4 * page.codes.size + roundLimit) 0).run start).2.finished

end Retouch.Grammar.Language
