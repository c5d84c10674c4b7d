import Retouch.Proofs.Sheet.Inside
import Retouch.Proofs.Sheet.Lookup
import Mathlib.Data.List.Range

/-!
# The closest rule

A selector is looked up near a line: of the rules that match it and begin within so many lines of this one, the one
that begins closest to it is the answer, and of those at the same distance the first one of the document. A search
cuts the lists of all rules, so one list that leaves a quote or a parenthesis open makes it fail, even if it is not the
list of a rule that is looked for.

## Main statements

* `nearest_spec`: one pass over rows of rules in the order of the document comes to the closest one.
* `rules_ordered`: the rules of a sheet without errors are in the order in which they begin.
* `findsClosest_iff`: the closest rule, and the first one if there is one, is found just if no list of selectors leaves
  anything open.
-/
namespace Retouch.Sheet

open Style

variable {entries : List (Rule × Nat)} {distance : Rule → Nat} {tolerance : Int} {first middle last : Nat}

/-- No list of selectors leaves a quote or a parenthesis open. -/
def Closed (sheet : Sheet) : Prop := ∀ rule ∈ sheet.rules, ¬LeavesOpen rule.selector

/-- The rules that match a selector, with their numbers, in the order of the document. -/
def candidates (sheet : Sheet) (selector : String) : List (Rule × Nat) :=
  sheet.rules.zipIdx.filter fun entry => entry.1.Matches (normalizeSelector selector.toList)

/-- A rule that matches begins within so many lines of a line, closer to it than the other ones that match, and in the
document before those as close. -/
structure Closest (sheet : Sheet) (selector : String) (line tolerance : Int) (found : Rule × Nat) : Prop where
  fits : found ∈ sheet.candidates selector
  within : (sheet.lineDistance line found.1 : Int) ≤ tolerance
  least : ∀ other ∈ sheet.candidates selector, sheet.lineDistance line found.1 ≤ sheet.lineDistance line other.1
  earliest : ∀ other ∈ sheet.candidates selector,
    sheet.lineDistance line other.1 = sheet.lineDistance line found.1 → found.2 ≤ other.2

/-- The search near a line gives the closest rule; it gives none only if all rules that match are too far away. -/
def FindsClosest (sheet : Sheet) (selector : String) (line tolerance : Int) : Prop :=
  ∃ answer, sheet.findNear? selector line tolerance = .ok answer ∧
    (∀ found, answer = some found → sheet.Closest selector line tolerance found) ∧
      (answer = none → ∀ other ∈ sheet.candidates selector, tolerance < sheet.lineDistance line other.1)

/-- When some rule matches, the first such rule of the document is found. -/
def FindsEarliest (sheet : Sheet) (selector : String) : Prop :=
  sheet.candidates selector ≠ [] →
    ∃ found ∈ sheet.candidates selector, sheet.find? selector = .ok (some found) ∧
      ∀ other ∈ sheet.candidates selector, found.2 ≤ other.2

/-! ### The search over all rules -/

theorem findAll_eq (sheet : Sheet) (selector : String) :
    sheet.findAll selector =
      match sheet.rules.find? (LeavesOpen ·.selector) with
      | some rule => .error ⟨String.ofList rule.selector⟩
      | none => .ok (sheet.candidates selector) := by
  have alone : sheet.rules.find? (LeavesOpen ·.selector) =
      (sheet.rules.zipIdx.find? (LeavesOpen ·.1.selector)).map Prod.fst := by
    conv => lhs; rw [← List.zipIdx_map_fst 0 sheet.rules, List.find?_map]
    rfl
  rw [findAll, matching_eq, alone]
  cases sheet.rules.zipIdx.find? (LeavesOpen ·.1.selector) <;> rfl

/-- The rules that match come in the order of their numbers. -/
theorem candidates_ordered (sheet : Sheet) (selector : String) :
    (sheet.candidates selector).Pairwise fun a b => a.2 < b.2 := by
  refine List.Pairwise.filter _ (List.pairwise_map.mp ?_)
  rw [List.zipIdx_map_snd]
  exact List.pairwise_lt_range'

/-! ### One pass over the rules -/

/-- An entry goes before another one: it is closer, or as close and not behind it. -/
def Before (distance : Rule → Nat) (a b : Rule × Nat) : Prop :=
  distance a.1 < distance b.1 ∨ distance a.1 = distance b.1 ∧ a.2 ≤ b.2

theorem Before.trans {a b c : Rule × Nat} (ab : Before distance a b) (bc : Before distance b c) :
    Before distance a c := by
  unfold Before at *
  omega

/-- What the pass over a row holds at its end: an entry within the tolerance that goes before all others, or nothing
if all are too far away. -/
def Holds (distance : Rule → Nat) (tolerance : Int) (row : List (Rule × Nat)) : Option (Rule × Nat) → Prop
  | none => ∀ entry ∈ row, tolerance < distance entry.1
  | some found => found ∈ row ∧ (distance found.1 : Int) ≤ tolerance ∧ ∀ other ∈ row, Before distance found other

/-- What is held after one more entry. -/
def closer (distance : Rule → Nat) (tolerance : Int) (best : Option (Rule × Nat)) (entry : Rule × Nat) :
    Option (Rule × Nat) :=
  if tolerance < distance entry.1 then best
  else match best with
    | none => some entry
    | some held => if distance entry.1 < distance held.1 then some entry else some held

theorem nearest_eq_foldl (best : Option (Rule × Nat)) (entries : List (Rule × Nat)) :
    nearest distance tolerance best entries = entries.foldl (closer distance tolerance) best := by
  induction entries generalizing best with
  | nil => cases best <;> rfl
  | cons entry entries ih =>
    rw [List.foldl_cons, ← ih]
    cases best with
    | none =>
      rw [nearest, closer]
      split <;> rfl
    | some held =>
      rw [nearest, closer]
      split
      · rfl
      · split <;> rfl

/-- One more entry, behind all of the row. -/
theorem Holds.step {row : List (Rule × Nat)} {best : Option (Rule × Nat)} {entry : Rule × Nat}
    (holds : Holds distance tolerance row best) (behind : ∀ other ∈ row, other.2 < entry.2) :
    Holds distance tolerance (row ++ [entry]) (closer distance tolerance best entry) := by
  unfold closer
  split
  · rename_i far
    cases best with
    | none => exact List.forall_mem_append.mpr ⟨holds, List.forall_mem_singleton.mpr far⟩
    | some held =>
      obtain ⟨member, within, before⟩ := holds
      have farther : Before distance held entry := .inl (by omega)
      exact ⟨List.mem_append_left _ member, within,
        List.forall_mem_append.mpr ⟨before, List.forall_mem_singleton.mpr farther⟩⟩
  · rename_i near
    have own : Before distance entry entry := .inr ⟨rfl, Nat.le_refl _⟩
    cases best with
    | none =>
      -- All entries so far are farther away than the tolerance, this one is not.
      refine ⟨List.mem_append_right _ (List.mem_singleton_self entry), by omega, ?_⟩
      refine List.forall_mem_append.mpr ⟨fun other member => .inl ?_, List.forall_mem_singleton.mpr own⟩
      have far := holds other member
      omega
    | some held =>
      obtain ⟨member, within, before⟩ := holds
      dsimp only
      split
      · rename_i less
        refine ⟨List.mem_append_right _ (List.mem_singleton_self entry), by omega, ?_⟩
        have first : Before distance entry held := .inl less
        exact List.forall_mem_append.mpr
          ⟨fun other member => first.trans (before other member), List.forall_mem_singleton.mpr own⟩
      · rename_i more
        -- The entry may be as close, but then it stands behind the one that is held.
        have later : Before distance held entry := by
          have := behind held member
          unfold Before
          omega
        exact ⟨List.mem_append_left _ member, within,
          List.forall_mem_append.mpr ⟨before, List.forall_mem_singleton.mpr later⟩⟩

/-- The pass goes on over the rest of a row. -/
theorem Holds.foldl {row : List (Rule × Nat)} {best : Option (Rule × Nat)}
    (holds : Holds distance tolerance row best) (ordered : (row ++ entries).Pairwise fun a b => a.2 < b.2) :
    Holds distance tolerance (row ++ entries) (entries.foldl (closer distance tolerance) best) := by
  induction entries generalizing row best with
  | nil => rwa [List.append_nil]
  | cons entry entries ih =>
    have behind : ∀ other ∈ row, other.2 < entry.2 := fun other member =>
      (List.pairwise_append.mp ordered).2.2 other member entry List.mem_cons_self
    rw [List.append_cons] at ordered ⊢
    exact ih (holds.step behind) ordered

/-- One pass over a row in the order of the numbers comes to the entry that goes before all others. -/
theorem nearest_spec (ordered : entries.Pairwise fun a b => a.2 < b.2) :
    Holds distance tolerance entries (nearest distance tolerance none entries) := by
  have start : Holds distance tolerance [] none := List.forall_mem_nil _
  rw [nearest_eq_foldl]
  exact start.foldl ordered

/-! ### Rules in the order of the text -/

/-- Rules that begin one behind the other, between two offsets. -/
def Ordered (first last : Nat) (rules : List Rule) : Prop :=
  rules.Pairwise (fun a b => a.start < b.start) ∧ ∀ rule ∈ rules, first ≤ rule.start ∧ rule.start < last

theorem ordered_nil : Ordered first last [] := ⟨.nil, List.forall_mem_nil _⟩

theorem Ordered.append {rules more : List Rule} (ordered : Ordered first middle rules)
    (ordered' : Ordered middle last more) (le : first ≤ middle) (le' : middle ≤ last) :
    Ordered first last (rules ++ more) := by
  obtain ⟨sorted, bounds⟩ := ordered
  obtain ⟨sorted', bounds'⟩ := ordered'
  refine ⟨List.pairwise_append.mpr ⟨sorted, sorted', fun rule member other member' => ?_⟩, ?_⟩
  · exact Nat.lt_of_lt_of_le (bounds rule member).2 (bounds' other member').1
  · refine List.forall_mem_append.mpr ⟨fun rule member => ?_, fun rule member => ?_⟩
    · exact ⟨(bounds rule member).1, Nat.lt_of_lt_of_le (bounds rule member).2 le'⟩
    · exact ⟨Nat.le_trans le (bounds' rule member).1, (bounds' rule member).2⟩

theorem Ordered.mono {first' last' : Nat} {rules : List Rule} (ordered : Ordered first last rules)
    (le : first' ≤ first) (le' : last ≤ last') : Ordered first' last' rules :=
  ⟨ordered.1, fun rule member => ⟨Nat.le_trans le (ordered.2 rule member).1,
    Nat.lt_of_lt_of_le (ordered.2 rule member).2 le'⟩⟩

mutual

/-- The rules of an item begin in its text. -/
theorem ordered_rulesOf (container : Option AtRule) (offset : Nat) (item : Item) :
    Ordered offset (offset + item.text.length) (rulesOf container offset item) := by
  cases item with
  | block kind head gap inner =>
    have size : (Item.block kind head gap inner).text.length =
        head.length + gap.length + 1 + (textOf inner).length + 1 := by
      simp [Item.text]
      omega
    have own : Ordered offset (offset + head.length + gap.length + 1)
        (if kind = .rule then [placeRule container offset head gap inner] else []) := by
      split
      · have here : offset < offset + head.length + gap.length + 1 := by omega
        exact ⟨List.pairwise_singleton _ _, List.forall_mem_singleton.mpr ⟨Nat.le_refl _, here⟩⟩
      · exact ordered_nil
    have deeper := ordered_rulesFrom (kind.container? head gap offset) (offset + head.length + gap.length + 1) inner
    rw [rulesOf]
    exact (own.append deeper (by omega) (by omega)).mono (Nat.le_refl _) (by omega)
  | _ => exact ordered_nil
termination_by structural item

/-- The rules of items begin in their text. -/
theorem ordered_rulesFrom (container : Option AtRule) (offset : Nat) (items : List Item) :
    Ordered offset (offset + (textOf items).length) (rulesFrom container offset items) := by
  cases items with
  | nil => exact ordered_nil
  | cons item rest =>
    rw [rulesFrom, textOf, List.length_append, ← Nat.add_assoc]
    exact (ordered_rulesOf container offset item).append (ordered_rulesFrom container _ rest)
      (Nat.le_add_right _ _) (Nat.le_add_right _ _)
termination_by structural items

end

/-- The rules of a sheet without errors are in the order in which they begin. -/
theorem rules_ordered (sheet : Sheet) (sound : sheet.hasError = false) :
    sheet.rules.Pairwise fun a b => a.start < b.start := by
  obtain ⟨items, parsed, -⟩ := (hasError_eq_false sheet).mp sound
  rw [rules_of_parse parsed]
  exact (ordered_rulesFrom none 0 items).1

/-! ### Looking up one rule -/

/-- What a search gives of the rules that match, unless some list leaves something open. -/
theorem findNear?_eq (sheet : Sheet) (selector : String) (line tolerance : Int) :
    sheet.findNear? selector line tolerance =
      match sheet.rules.find? (LeavesOpen ·.selector) with
      | some rule => .error ⟨String.ofList rule.selector⟩
      | none => .ok (nearest (sheet.lineDistance line) tolerance none (sheet.candidates selector)) := by
  rw [findNear?, findAll_eq]
  cases sheet.rules.find? (LeavesOpen ·.selector) <;> rfl

theorem find?_eq (sheet : Sheet) (selector : String) :
    sheet.find? selector =
      match sheet.rules.find? (LeavesOpen ·.selector) with
      | some rule => .error ⟨String.ofList rule.selector⟩
      | none => .ok (sheet.candidates selector).head? := by
  rw [find?, findAll_eq]
  cases sheet.rules.find? (LeavesOpen ·.selector) <;> rfl

/-- What the pass over the rules that match comes to is the closest rule. -/
theorem closest_of_holds {sheet : Sheet} {selector : String} {line : Int} {found : Rule × Nat}
    (holds : Holds (sheet.lineDistance line) tolerance (sheet.candidates selector) (some found)) :
    sheet.Closest selector line tolerance found := by
  obtain ⟨member, within, before⟩ := holds
  refine ⟨member, within, fun other other' => ?_, fun other other' same => ?_⟩
  all_goals
    have := before other other'
    unfold Before at this
    omega

theorem closed_iff (sheet : Sheet) : sheet.Closed ↔ sheet.rules.find? (LeavesOpen ·.selector) = none := by
  simp only [Closed, List.find?_eq_none, decide_eq_true_eq]

theorem closest_found_iff (sheet : Sheet) (selector : String) (line tolerance : Int) :
    sheet.FindsClosest selector line tolerance ↔ sheet.Closed := by
  rw [closed_iff, FindsClosest, findNear?_eq]
  cases sheet.rules.find? (LeavesOpen ·.selector) with
  | some rule => exact iff_of_false (by rintro ⟨answer, ⟨⟩, -⟩) (by rintro ⟨⟩)
  | none =>
    have holds : Holds (sheet.lineDistance line) tolerance (sheet.candidates selector) _ :=
      nearest_spec (candidates_ordered sheet selector)
    refine iff_of_true ⟨_, rfl, fun found same => ?_, fun same => ?_⟩ rfl
    · rw [same] at holds
      exact closest_of_holds holds
    · rw [same] at holds
      exact holds

theorem earliest_found_iff (sheet : Sheet) (selector : String) :
    sheet.FindsEarliest selector ↔ sheet.Closed ∨ sheet.candidates selector = [] := by
  rw [closed_iff, FindsEarliest, find?_eq]
  cases sheet.rules.find? (LeavesOpen ·.selector) with
  | some rule =>
    -- The search fails, which is right only if there is nothing to be found.
    rw [or_iff_right (by rintro ⟨⟩)]
    constructor
    · intro finds
      by_contra some
      obtain ⟨_, -, ⟨⟩, -⟩ := finds some
    · exact fun none some => absurd none some
  | none =>
    refine iff_of_true (fun some => ?_) (.inl rfl)
    obtain ⟨found, rest, row⟩ := List.exists_cons_of_ne_nil some
    have ordered := candidates_ordered sheet selector
    rw [row] at ordered ⊢
    refine ⟨found, List.mem_cons_self, rfl, List.forall_mem_cons.mpr ⟨Nat.le_refl _, fun other member => ?_⟩⟩
    exact Nat.le_of_lt ((List.pairwise_cons.mp ordered).1 other member)

/-- The closest rule is found just if no list leaves anything open, and so is the first one, if any rule matches.
In a sheet without errors the rules are numbered in the order in which they begin. -/
theorem findsClosest_iff (sheet : Sheet) (selector : String) (line tolerance : Int) :
    (sheet.FindsClosest selector line tolerance ↔ sheet.Closed) ∧
      (sheet.FindsEarliest selector ↔ sheet.Closed ∨ sheet.candidates selector = []) ∧
        (sheet.hasError = false → sheet.rules.Pairwise fun a b => a.start < b.start) :=
  ⟨closest_found_iff sheet selector line tolerance, earliest_found_iff sheet selector, rules_ordered sheet⟩

private def tiedSheet : Sheet := .ofText ".a \x7b \x7d\n.b \x7b \x7d\n.A \x7b \x7d\n"

/-- Of two rules that are as far from the line as it may be, the first one is found. -/
theorem findsClosest_tied : tiedSheet.FindsClosest ".a" 2 1 ∧
    (tiedSheet.findNear? ".a" 2 1).map (Option.map Prod.snd) = .ok (some 0) ∧ tiedSheet.FindsEarliest ".A" := by
  have closed : tiedSheet.Closed := by
    have each : tiedSheet.rules.all (fun rule => !decide (LeavesOpen rule.selector)) = true := by decide +kernel
    intro rule member
    simpa using List.all_eq_true.mp each rule member
  refine ⟨(findsClosest_iff tiedSheet ".a" 2 1).1.mpr closed, by decide +kernel, ?_⟩
  exact (findsClosest_iff tiedSheet ".A" 2 1).2.1.mpr (.inl closed)

private def escapedSheet : Sheet := .ofText ".a\\( \x7b top: 0; \x7d .b \x7b top: 0; \x7d"

/-- A rule that matches is not found behind one with an escaped parenthesis. -/
theorem closest_fails_at_escape : ¬ escapedSheet.FindsEarliest ".b" ∧ ¬ escapedSheet.FindsClosest ".b" 1 10 ∧
    escapedSheet.hasError = false ∧ (escapedSheet.candidates ".b").map Prod.snd = [1] ∧
      escapedSheet.find? ".b" = .error ⟨".a\\("⟩ ∧ escapedSheet.findNear? ".b" 1 10 = .error ⟨".a\\("⟩ := by
  have failed : escapedSheet.find? ".b" = .error ⟨".a\\("⟩ := by decide +kernel
  have failed' : escapedSheet.findNear? ".b" 1 10 = .error ⟨".a\\("⟩ := by decide +kernel
  have fits : (escapedSheet.candidates ".b").map Prod.snd = [1] := by decide +kernel
  refine ⟨fun finds => ?_, fun finds => ?_, by decide +kernel, fits, failed, failed'⟩
  · obtain ⟨found, -, told, -⟩ := finds (by rintro none; rw [none] at fits; cases fits)
    rw [failed] at told
    cases told
  · obtain ⟨answer, told, -⟩ := finds
    rw [failed'] at told
    cases told

end Retouch.Sheet
