/-!
# Tokens and their automaton

A token is given by the pattern of its texts. The patterns of all tokens are laid out in one automaton,
in which a text is followed along several ways at once. Where ways part or end, the rank of a token
decides, then whether its text is fixed, then the order of the tokens. A set of characters is kept as
ranges of code points, in order and apart from each other, so that sets can be joined, cut and turned
around without listing their members.
-/
namespace Retouch.Grammar

/-- A set of characters: of each range the first code point, and the first one behind it. -/
structure CharSet where
  ranges : List (Nat × Nat)
  deriving DecidableEq, Hashable, Repr

namespace CharSet

/-- The first number that is no code point. -/
def bound : Nat := 0x110000

/-- Joins those ranges that meet, in a list in the order of the starts. -/
def joined : List (Nat × Nat) → List (Nat × Nat)
  | a :: b :: rest =>
    if b.1 ≤ a.2 then joined ((a.1, max a.2 b.2) :: rest) else a :: joined (b :: rest)
  | ranges => ranges
termination_by ranges => ranges.length

def ofRanges (ranges : List (Nat × Nat)) : CharSet :=
  ⟨joined (ranges.mergeSort fun a b => a.1 < b.1 || (a.1 == b.1 && a.2 ≤ b.2))⟩

/-- The characters of a text. -/
def ofString (s : String) : CharSet := ofRanges (s.toList.map fun c => (c.toNat, c.toNat + 1))

/-- The characters from one to another, both included. -/
def span (first last : Char) : CharSet := ⟨[(first.toNat, last.toNat + 1)]⟩

def union (a b : CharSet) : CharSet := ofRanges (a.ranges ++ b.ranges)

instance : Append CharSet := ⟨union⟩

/-- The ranges between those of a list, from a code point on. -/
def gaps (start : Nat) : List (Nat × Nat) → List (Nat × Nat)
  | [] => if start < bound then [(start, bound)] else []
  | (first, stop) :: rest =>
    if start < first then (start, first) :: gaps stop rest else gaps stop rest

/-- All characters but those of a set. -/
def complement (a : CharSet) : CharSet := ⟨gaps 0 a.ranges⟩

/-- Whether two sets have a character in common. -/
def meets (a b : CharSet) : Bool :=
  a.ranges.any fun x => b.ranges.any fun y => max x.1 y.1 < min x.2 y.2

def contains (a : CharSet) (code : Nat) : Bool :=
  a.ranges.any fun range => range.1 ≤ code && code < range.2

end CharSet

/-- The form of a text. -/
inductive Pattern where
  | one (set : CharSet)
  | seq (parts : List Pattern)
  | alt (parts : List Pattern)
  | opt (part : Pattern)
  /-- Any number of times. -/
  | many (part : Pattern)
  /-- Once or more. -/
  | atLeastOne (part : Pattern)

/-- A fixed text. -/
def Pattern.text (s : String) : Pattern :=
  .seq (s.toList.map fun c => .one (CharSet.ofString c.toString))

/-- A token. A name with a leading underscore does not show in trees. -/
structure Token where
  name : String
  pattern : Pattern
  /-- Whether the token has one text only. -/
  isFixed : Bool
  /-- Whether no blanks may stand before it. -/
  isImmediate : Bool
  rank : Int

namespace Token

/-- The token of a fixed text, which is also its name. -/
def fixed (text : String) : Token := ⟨text, .text text, true, false, 0⟩

def ofPattern (name : String) (pattern : Pattern) : Token := ⟨name, pattern, false, false, 0⟩

def immediate (token : Token) : Token := { token with isImmediate := true }

def ranked (token : Token) (rank : Int) : Token := { token with rank := rank }

def named (token : Token) (name : String) : Token := { token with name := name }

/-- A fixed text tells more than a pattern, and more yet where no blanks may stand before it. -/
def weight (token : Token) : Nat :=
  (if token.isFixed then 2 else 0) + (if token.isImmediate then 1 else 0)

/-- Whether the name of a symbol shows in trees. -/
def shows (name : String) : Bool := name.toList.head? != some '_'

end Token

/-- The characters that may stand before any token that is not immediate. -/
def blanks : CharSet := ⟨[(9, 14), (32, 33)]⟩

/-- A place in the automaton. -/
inductive Place where
  /-- Goes on behind a character; `blank` tells whether it stands before the token itself. -/
  | step (set : CharSet) (next : Nat) (blank : Bool) (rank : Int)
  | split (a b : Nat)
  /-- The end of a token. -/
  | done (rank : Int)
  deriving Inhabited

/-- The places of all tokens, each with the number of its token. Tokens are numbered from one. -/
structure Automaton where
  tokens : Array Token
  places : Array (Nat × Place)
  /-- The place where each token begins. -/
  starts : Array Nat

namespace Automaton

def push (owner : Nat) (places : Array (Nat × Place)) (place : Place) : Array (Nat × Place) × Nat :=
  (places.push (owner, place), places.size)

mutual

/-- Lays out a pattern before the place `next`; gives the place where it begins. -/
def layOut (owner : Nat) (rank : Int) (next : Nat) (places : Array (Nat × Place)) :
    Pattern → Array (Nat × Place) × Nat
  | .one set => push owner places (.step set next false rank)
  | .seq parts => layOutAll owner rank next places parts
  | .alt parts => layOutAny owner rank next places parts
  | .opt part =>
    let (places, start) := layOut owner rank next places part
    push owner places (.split start next)
  | .many part =>
    let (places, fork) := push owner places (.split 0 next)
    let (places, start) := layOut owner rank fork places part
    (places.setIfInBounds fork (owner, .split start next), fork)
  | .atLeastOne part =>
    let (places, fork) := push owner places (.split 0 next)
    let (places, start) := layOut owner rank fork places part
    (places.setIfInBounds fork (owner, .split start next), start)

/-- Lays out patterns one behind the other. -/
def layOutAll (owner : Nat) (rank : Int) (next : Nat) (places : Array (Nat × Place)) :
    List Pattern → Array (Nat × Place) × Nat
  | [] => (places, next)
  | part :: rest =>
    let (places, next) := layOutAll owner rank next places rest
    layOut owner rank next places part

/-- Lays out patterns beside each other. -/
def layOutAny (owner : Nat) (rank : Int) (next : Nat) (places : Array (Nat × Place)) :
    List Pattern → Array (Nat × Place) × Nat
  | [] => (places, next)
  | part :: [] => layOut owner rank next places part
  | part :: rest =>
    let (places, start) := layOut owner rank next places part
    let (places, other) := layOutAny owner rank next places rest
    push owner places (.split start other)

end

/-- Adds the places of a token, with the blanks before it. -/
def add (automaton : Automaton) (token : Token) : Automaton :=
  let owner := automaton.tokens.size + 1
  let (places, stop) := push owner automaton.places (.done token.rank)
  let (places, start) := layOut owner token.rank stop places token.pattern
  let (places, start) :=
    if token.isImmediate then (places, start)
    else
      let (places, fork) := push owner places (.split 0 start)
      let (places, blank) := push owner places (.step blanks fork true 0)
      (places.setIfInBounds fork (owner, .split blank start), fork)
  ⟨automaton.tokens.push token, places, automaton.starts.push start⟩

def ofTokens (tokens : List Token) : Automaton := tokens.foldl add ⟨#[], #[], #[]⟩

variable (automaton : Automaton)

def token (number : Nat) : Token := automaton.tokens.getD (number - 1) (.fixed "")

def start (number : Nat) : Nat := automaton.starts.getD (number - 1) 0

def place (index : Nat) : Place := (automaton.places.getD index (0, .done 0)).2

def owner (index : Nat) : Nat := (automaton.places.getD index (0, .done 0)).1

/-- Puts a number into a list in rising order. -/
def insert (n : Nat) : List Nat → List Nat
  | [] => [n]
  | m :: rest => if n < m then n :: m :: rest else if n = m then m :: rest else m :: insert n rest

/-- Follows the forks from the pending places. -/
def follow : Nat → List Nat → List Nat → List Nat → List Nat
  | 0, _, _, found => found
  | _, [], _, found => found
  | fuel + 1, index :: pending, forks, found =>
    match automaton.place index with
    | .split a b =>
      if forks.contains index then follow fuel pending forks found
      else follow fuel (a :: b :: pending) (index :: forks) found
    | _ => follow fuel pending forks (insert index found)

/-- The places that can be reached without a character, in rising order and without the forks. -/
def closure (indices : List Nat) : List Nat :=
  automaton.follow (indices.length + 2 * automaton.places.size + 1) indices [] []

/-- The ends among some places: the tokens with their ranks. -/
def ends (indices : List Nat) : List (Nat × Int) :=
  indices.filterMap fun index =>
    match automaton.place index with
    | .done rank => some (automaton.owner index, rank)
    | _ => none

/-- Whether one of two tokens that end at the same character goes before the other one. -/
def goesBefore (a b : Nat × Int) : Bool :=
  if a.2 ≠ b.2 then b.2 < a.2
  else
    let left := (automaton.token a.1).weight
    let right := (automaton.token b.1).weight
    if left ≠ right then right < left else a.1 < b.1

/-- The token that ends at some places. -/
def winner (indices : List Nat) : Option (Nat × Int) :=
  (automaton.ends indices).foldl
    (fun best found =>
      match best with
      | some held => if automaton.goesBefore held found then best else some found
      | none => some found)
    none

/-- Whether one of the places still stands before its token. -/
def isBeforeToken (indices : List Nat) : Bool :=
  indices.any fun index =>
    match automaton.place index with
    | .step _ _ blank _ => blank
    | _ => false

/-- A way on from some places: the characters that take it, and where it leads. -/
structure Way where
  set : CharSet
  target : List Nat
  /-- Whether the character stands before all tokens that go on. -/
  blank : Bool
  rank : Int

/-- Adds a range of characters to the way that leads to the same places. -/
def addRange (range : Nat × Nat) (target : List Nat) (blank : Bool) (rank : Int) :
    List Way → List Way
  | [] => [⟨⟨[range]⟩, target, blank, rank⟩]
  | way :: rest =>
    if way.target == target && way.blank == blank && way.rank == rank then
      { way with set := way.set ++ ⟨[range]⟩ } :: rest
    else way :: addRange range target blank rank rest

/-- All ways on from some places; no character takes two of them. -/
def ways (indices : List Nat) : List Way :=
  let steps := indices.filterMap fun index =>
    match automaton.place index with
    | .step set next blank rank => some (set, next, blank, rank)
    | _ => none
  let marks := steps.foldl
    (fun marks (set, _) => set.ranges.foldl (fun marks (a, b) => insert b (insert a marks)) marks) []
  (marks.zip marks.tail).foldl
    (fun ways range =>
      match steps.filter fun (set, _) => set.contains range.1 with
      | [] => ways
      | (first :: rest) =>
        let taken := first :: rest
        addRange range (automaton.closure (taken.map fun (_, next, _) => next))
          (taken.all fun (_, _, blank, _) => blank)
          (rest.foldl (fun rank (_, _, _, other) => max rank other) first.2.2.2) ways)
    []

/-- Whether reading goes on along a way although a token could end before it. -/
def prefersWay (way : Way) (ended : Nat × Int) (beforeToken : Bool) : Bool :=
  if way.rank < ended.2 then false
  else if way.rank = ended.2 then
    !way.blank && !(beforeToken && way.target.any fun index => automaton.owner index == ended.1)
  else true

end Automaton

end Retouch.Grammar
