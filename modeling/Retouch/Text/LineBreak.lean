/-!
# Lines

Lines end in a line feed, or in a carriage return and a line feed. A place in a text is a line and a
column, both counted from one; for places lines end at line feeds, and columns count characters. Main
statement: `toFeeds_toPairs`, a text without pairs comes back when its line feeds are made pairs and
these line feeds again.
-/
namespace Retouch.Text

/-- How the lines of a text end. -/
inductive LineBreak where
  | feed
  | pair
  deriving DecidableEq, Repr

namespace LineBreak

/-- Whether some line ends in a pair. -/
def hasPair : List Char → Bool
  | '\r' :: '\n' :: _ => true
  | _ :: rest => hasPair rest
  | [] => false

/-- The line breaks of a text: one pair makes them all pairs. -/
def ofText (cs : List Char) : LineBreak := if hasPair cs then .pair else .feed

/-- Each pair becomes a line feed. -/
def toFeeds : List Char → List Char
  | '\r' :: '\n' :: rest => '\n' :: toFeeds rest
  | c :: rest => c :: toFeeds rest
  | [] => []

/-- Each line feed becomes a pair. -/
def toPairs (cs : List Char) : List Char :=
  cs.flatMap fun c => if c = '\n' then ['\r', '\n'] else [c]

/-- The text with these line breaks throughout. -/
def apply (kind : LineBreak) (cs : List Char) : List Char :=
  match kind with
  | .feed => toFeeds cs
  | .pair => toPairs (toFeeds cs)

/-- Pairs and lone carriage returns become line feeds. -/
def unify : List Char → List Char
  | '\r' :: '\n' :: rest => '\n' :: unify rest
  | '\r' :: rest => '\n' :: unify rest
  | c :: rest => c :: unify rest
  | [] => []

theorem toFeeds_cons {c : Char} (other : c ≠ '\r') (rest : List Char) :
    toFeeds (c :: rest) = c :: toFeeds rest := by
  rw [toFeeds]
  intro _ eq _
  exact other eq

theorem hasPair_tail {c : Char} {rest : List Char} (none : hasPair (c :: rest) = false) :
    hasPair rest = false := by
  unfold hasPair at none
  split at none <;> simp_all

/-- Making line feeds pairs loses nothing of a text without pairs. -/
theorem toFeeds_toPairs (cs : List Char) (none : hasPair cs = false) :
    toFeeds (toPairs cs) = cs := by
  induction cs with
  | nil => rfl
  | cons c rest ih =>
    have back := ih (hasPair_tail none)
    by_cases feed : c = '\n'
    · subst feed
      simpa [toPairs, toFeeds] using back
    · have step : toPairs (c :: rest) = c :: toPairs rest := by simp [toPairs, feed]
      rw [step]
      by_cases carriage : c = '\r'
      · subst carriage
        cases rest with
        | nil => rfl
        | cons d rest =>
          have other : d ≠ '\n' := by
            rintro rfl
            simp [hasPair] at none
          have next : toPairs (d :: rest) = d :: toPairs rest := by simp [toPairs, other]
          rw [next] at back ⊢
          have skip : toFeeds ('\r' :: d :: toPairs rest) = '\r' :: toFeeds (d :: toPairs rest) := by
            rw [toFeeds]
            intro _ _ eq
            exact other (List.cons.inj eq).1
          rw [skip, back]
      · rw [toFeeds_cons carriage, back]

end LineBreak

structure Position where
  line : Nat
  column : Nat
  deriving DecidableEq, Repr

/-- The position behind the first `offset` characters of a text. -/
def positionAt (cs : List Char) (offset : Nat) : Position :=
  let before := cs.take offset
  ⟨before.count '\n' + 1, (before.reverse.takeWhile (· ≠ '\n')).length + 1⟩

end Retouch.Text
