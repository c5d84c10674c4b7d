import Retouch.Grammar.States

/-!
# Tokens that can be taken for each other

Two tokens are in each other's way when a text can be the one and the other, or the beginning of it.
Which tokens a state may look for together, and which ones are looked for while nothing makes sense,
depends on that.
-/
namespace Retouch.Grammar

/-- What a token does to another one. -/
structure Clash where
  /-- It can already have ended while the other one has not begun. -/
  early : Bool := false
  /-- It is taken where both end. -/
  same : Bool := false
  /-- It goes on where the other one has ended. -/
  longer : Bool := false
  /-- It does so with a character that can follow the other one. -/
  longerNear : Bool := false
  /-- It ends, and is taken, although the other one could go on. -/
  shorter : Bool := false
  deriving DecidableEq, Repr, Inhabited

/-- What two tokens do to each other. -/
structure Clashes where
  first : Clash
  second : Clash
  deriving Inhabited

/-- Two tokens that are compared, and the characters that can follow each one. -/
structure Rivals where
  automaton : Automaton
  first : Nat
  second : Nat
  behindFirst : CharSet
  behindSecond : CharSet

namespace Rivals

variable (rivals : Rivals)

def note (token : Nat) (change : Clash → Clash) (found : Clashes) : Clashes :=
  if token = rivals.first then { found with first := change found.first }
  else { found with second := change found.second }

/-- The characters that can follow the other token. -/
def behindOther (token : Nat) : CharSet :=
  if token = rivals.first then rivals.behindSecond else rivals.behindFirst

/-- Compares the tokens that end at the same places. -/
def compareEnds (before : Bool) :
    List (Nat × Int) → Option (Nat × Int) → Clashes → Clashes × Option (Nat × Int)
  | [], best, found => (found, best)
  | ended :: rest, best, found =>
    let found := if before then rivals.note ended.1 ({ · with early := true }) found else found
    match best with
    | none => compareEnds before rest (some ended) found
    | some held =>
      if held.1 = ended.1 then compareEnds before rest best found
      else
        let winner := if rivals.automaton.goesBefore held ended then held else ended
        compareEnds before rest (some winner)
          (rivals.note winner.1 ({ · with same := true }) found)

/-- Compares a token that ended with those that go on. Gives the ways that are still open. -/
def compareWays (before : Bool) (ended : Option (Nat × Int)) :
    List Automaton.Way → Clashes → Clashes × List (List Nat)
  | [], found => (found, [])
  | way :: rest, found =>
    let owners := way.target.map rivals.automaton.owner
    match ended with
    | some (token, rank) =>
      match owners.getLast? with
      | some other =>
        if owners.contains token then
          let (found, more) := compareWays before ended rest found
          (found, way.target :: more)
        else if rivals.automaton.prefersWay way (token, rank) before then
          let near := way.set.meets (rivals.behindOther other)
          let found := rivals.note other
            (fun clash => { clash with longer := true, longerNear := clash.longerNear || near }) found
          let (found, more) := compareWays before ended rest found
          (found, way.target :: more)
        else compareWays before ended rest (rivals.note token ({ · with shorter := true }) found)
      | none =>
        let (found, more) := compareWays before ended rest found
        (found, way.target :: more)
    | none =>
      let (found, more) := compareWays before ended rest found
      (found, way.target :: more)

/-- Follows both tokens while both are in play; `fuel` bounds the number of sets of places. -/
def explore : Nat → List (List Nat) → List (List Nat) → Clashes → Clashes
  | 0, _, _, found => found
  | _, [], _, found => found
  | fuel + 1, places :: pending, seen, found =>
    let owners := places.map rivals.automaton.owner
    if owners.all fun owner => some owner == owners.head? then
      explore fuel pending seen found
    else
      let before := rivals.automaton.isBeforeToken places
      let (found, ended) := rivals.compareEnds before (rivals.automaton.ends places) none found
      let (found, targets) := rivals.compareWays before ended (rivals.automaton.ways places) found
      let fresh := (targets.filter fun target => !seen.contains target).eraseDups
      explore fuel (fresh ++ pending) (fresh ++ seen) found

/-- More sets of places than two tokens have. -/
def exploreLimit : Nat := 10000

def clashes : Clashes :=
  let automaton := rivals.automaton
  let begin := automaton.closure [automaton.start rivals.first, automaton.start rivals.second]
  rivals.explore exploreLimit [begin] [] ⟨{}, {}⟩

end Rivals

/-- What each token does to each other one, as sets of the other ones. Tokens clash when one can be
taken instead of the other or goes on in its stead. -/
structure Confusion where
  /-- The tokens that this one can be taken for, or go on for. -/
  clashing : Array SymbolSet
  /-- The tokens that this one is a part of, in front, and cuts off. -/
  shorter : Array SymbolSet
  /-- The tokens that this one overlaps with in any way. -/
  overlapping : Array SymbolSet
  /-- The tokens that this one can go on for with a character that follows them. -/
  outlasting : Array SymbolSet
  /-- The tokens that this one is known together with in some state. -/
  together : Array SymbolSet

namespace Confusion

/-- The characters with which a token begins. -/
def beginning (automaton : Automaton) (token : Nat) : CharSet :=
  .ofRanges ((automaton.closure [automaton.start token]).flatMap fun index =>
    match automaton.place index with
    | .step set _ _ _ => set.ranges
    | _ => [])

/-- The tokens that can follow each token. -/
def followers (items : Items) : Array SymbolSet :=
  let plan := items.plan
  let every : SymbolSet := plan.tokenSymbols.foldl SymbolSet.insert 0
  let extras : SymbolSet := plan.extras.foldl SymbolSet.insert 0
  let found := plan.productions.foldl
    (fun found production =>
      (production.steps.zip production.steps.tail).foldl
        (fun found (left, right) =>
          let next := items.firstOf right.symbol
          (SymbolSet.toList plan.terminals (items.lastOf left.symbol)).foldl
            (fun found symbol => found.modify symbol (SymbolSet.union next)) found)
        found)
    (Array.replicate plan.terminals extras)
  plan.extras.foldl (fun found symbol => found.setIfInBounds symbol every) found

def ofStates (items : Items) (states : Array State) : Confusion :=
  let plan := items.plan
  let automaton := plan.automaton
  let tokens := plan.tokenSymbols
  let beginnings := (Array.range plan.terminals).map fun symbol =>
    if plan.isToken symbol then beginning automaton symbol else ⟨[]⟩
  let behind := (followers items).map fun set => CharSet.ofRanges
    (tokens.flatMap fun token =>
      if SymbolSet.contains set token then (beginnings.getD token ⟨[]⟩).ranges else [])
  let none : Array SymbolSet := Array.replicate plan.terminals 0
  let mark (when : Bool) (token other : Nat) (sets : Array SymbolSet) :=
    if when then sets.modify token (SymbolSet.insert · other) else sets
  let add (confusion : Confusion) (token other : Nat) (clash back : Clash) : Confusion :=
    { confusion with
      clashing := mark (clash.longerNear || clash.early || clash.same) token other
        confusion.clashing
      shorter := mark clash.shorter token other confusion.shorter
      overlapping := mark (clash.early || clash.shorter || clash.same || clash.longer) token other
        confusion.overlapping
      outlasting := mark ((clash.longerNear || clash.early) && !back.early) token other
        confusion.outlasting }
  let together := states.foldl
    (fun together state =>
      let known := state.known
      tokens.foldl
        (fun together token =>
          if SymbolSet.contains known token then together.modify token (SymbolSet.union known)
          else together)
        together)
    none
  tokens.foldl
    (fun confusion first =>
      (tokens.takeWhile (· < first)).foldl
        (fun confusion second =>
          let found := Rivals.clashes
            ⟨automaton, first, second, behind.getD first ⟨[]⟩, behind.getD second ⟨[]⟩⟩
          add (add confusion first second found.first found.second) second first
            found.second found.first)
        confusion)
    ⟨none, none, none, none, together⟩

variable (confusion : Confusion)

def clashes (a b : Symbol) : Bool := SymbolSet.contains (confusion.clashing.getD a 0) b

def areTogether (a b : Symbol) : Bool := SymbolSet.contains (confusion.together.getD a 0) b

end Confusion

/-- Gives the first state its actions: while nothing makes sense every token is looked for, but for
those that clash with a token which is never in doubt. -/
def fillFirstState (plan : Plan) (confusion : Confusion) (states : Array State) : Array State :=
  let tokens := plan.tokenSymbols
  let isClear (token : Symbol) : Bool := tokens.all fun other =>
    token == other || confusion.areTogether token other ||
      !SymbolSet.contains (confusion.outlasting.getD token 0) other
  let clear := tokens.filter isClear
  let isSought (token : Symbol) : Bool := clear.contains token ||
    clear.all fun other => confusion.areTogether token other || !confusion.clashes token other
  states.modify 0 fun state =>
    { state with
      actions := (Array.range plan.terminals).map fun symbol =>
        if plan.isToken symbol && !isSought symbol then [] else [.mend] }

end Retouch.Grammar
