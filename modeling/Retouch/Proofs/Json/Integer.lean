import Retouch.Json.Reader
import Mathlib.Data.List.TakeDrop

/-!
# Integers that are written and read again

An integer is written by its digits, without a zero in front, and is read up to where something stands that is no part
of a number.

## Main statement

* `number_written`: an integer that is not too long is read as it was written.
-/
namespace Retouch.Json

variable {rest : List Char}

/-- What stands behind a number: it does not go on with the number. -/
def Closed (rest : List Char) : Prop :=
  ∀ c more, rest = c :: more → c.isDigit = false ∧ c ≠ '.' ∧ c ≠ 'e' ∧ c ≠ 'E'

theorem closed_nil : Closed [] := by
  intro c more same
  cases same

theorem closed_cons {c : Char} (plain : c.isDigit = false ∧ c ≠ '.' ∧ c ≠ 'e' ∧ c ≠ 'E') (more : List Char) :
    Closed (c :: more) := by
  intro d behind same
  obtain ⟨rfl, -⟩ := List.cons.inj same
  exact plain

theorem isDigit_toDigits {n : Nat} {c : Char} (member : c ∈ Nat.toDigits 10 n) : c.isDigit = true :=
  Nat.isDigit_of_mem_toDigits (by decide) (by decide) member

/-- The digits of a number do not begin with a zero. -/
theorem head_toDigits {n : Nat} (positive : 0 < n) : ∀ more, Nat.toDigits 10 n ≠ '0' :: more := by
  induction n using Nat.strongRecOn with
  | ind n ih =>
    by_cases small : n < 10
    · rw [Nat.toDigits_of_lt_base small]
      have digits : ∀ n < 10, 0 < n → Nat.digitChar n ≠ '0' := by decide
      intro more same
      exact digits n small positive (List.cons.inj same).1
    · rw [Nat.toDigits_of_base_le (by decide) (by omega)]
      -- What stands in front of the last digit are the digits of a smaller number.
      have front := ih (n / 10) (by omega) (by omega)
      intro more same
      cases digits : Nat.toDigits 10 (n / 10) with
      | nil => exact absurd digits Nat.toDigits_ne_nil
      | cons c others =>
        rw [digits, List.cons_append] at same
        obtain ⟨rfl, -⟩ := List.cons.inj same
        exact front others digits

theorem digitRun_written {digits : List Char} (all : ∀ c ∈ digits, c.isDigit = true) (closed : Closed rest) :
    digitRun (digits ++ rest) = (digits, rest) := by
  have stop : rest.takeWhile Char.isDigit = [] ∧ rest.dropWhile Char.isDigit = rest := by
    cases rest with
    | nil => exact ⟨rfl, rfl⟩
    | cons c more =>
      have plain := (closed c more rfl).1
      rw [List.takeWhile_cons_of_neg (by simp [plain]), List.dropWhile_cons_of_neg (by simp [plain])]
      exact ⟨rfl, rfl⟩
  unfold digitRun
  rw [List.span_eq_takeWhile_dropWhile, List.takeWhile_append_of_pos all, List.dropWhile_append_of_pos all, stop.1,
    stop.2, List.append_nil]

/-- Neither a fraction nor an exponent stands behind a number. -/
theorem whole_of_closed (closed : Closed rest) : fractionOf rest = ([], rest) ∧ exponentOf rest = (none, rest) := by
  cases rest with
  | nil => exact ⟨rfl, rfl⟩
  | cons c more =>
    obtain ⟨-, point, small, large⟩ := closed c more rfl
    constructor
    · unfold fractionOf
      split
      · rename_i same
        exact absurd (List.cons.inj same).1 point
      · rfl
    · unfold exponentOf
      dsimp only
      rw [if_neg (by simp [small, large])]

theorem toDigits_cons (n : Nat) : ∃ c more, Nat.toDigits 10 n = c :: more ∧ c.isDigit = true := by
  cases digits : Nat.toDigits 10 n with
  | nil => exact absurd digits Nat.toDigits_ne_nil
  | cons c more => exact ⟨c, more, rfl, isDigit_toDigits (n := n) (digits ▸ List.mem_cons_self)⟩

/-- A number is read from its sign and its digits on. -/
theorem number_of_parts {cs body whole : List Char} {negative : Bool}
    (cut : (match body with
      | '0' :: rest => (['0'], rest)
      | _ => digitRun body) = (whole, rest))
    (signed : (match cs with
      | '-' :: rest => (true, rest)
      | _ => (false, cs)) = (negative, body))
    (filled : whole ≠ []) (short : whole.length ≤ integerDigits) (closed : Closed rest) :
    number cs = .ok (.int (if negative then -(Nat.ofDigitChars 10 whole 0 : Int) else Nat.ofDigitChars 10 whole 0),
      rest) := by
  obtain ⟨fraction, exponent⟩ := whole_of_closed closed
  unfold number
  split
  rename_i negative' body' signed'
  obtain ⟨rfl, rfl⟩ := Prod.mk.inj (signed.symm.trans signed')
  split
  rename_i whole' rest' cut'
  obtain ⟨rfl, rfl⟩ := Prod.mk.inj (cut.symm.trans cut')
  rw [if_neg (by simp [filled]), fraction]
  dsimp only
  rw [exponent]
  dsimp only
  rw [if_pos (by rfl), if_neg (by omega)]

/-- An integer is written by its digits, behind a sign when it is negative. -/
theorem toString_toList (n : Int) :
    (toString n).toList = if n < 0 then '-' :: Nat.toDigits 10 n.natAbs else Nat.toDigits 10 n.natAbs := by
  cases n with
  | ofNat n =>
    rw [if_neg (by simp)]
    exact Nat.toList_repr
  | negSucc n =>
    rw [if_pos (Int.negSucc_lt_zero n)]
    have digits : (n + 1).repr.toList = Nat.toDigits 10 (Int.negSucc n).natAbs := Nat.toList_repr
    exact String.toList_append.trans (congrArg _ digits)

/-- An integer that is not too long is read as it was written. -/
theorem number_written {n : Int} (short : (Nat.toDigits 10 n.natAbs).length ≤ integerDigits) (closed : Closed rest) :
    number ((toString n).toList ++ rest) = .ok (.int n, rest) := by
  have back (n : Nat) : Nat.ofDigitChars 10 (Nat.toDigits 10 n) 0 = n :=
    Nat.ofDigitChars_toDigits (by decide) (by decide)
  obtain ⟨c, more, digits, digit⟩ := toDigits_cons n.natAbs
  -- A zero stands alone, and other digits are cut off as far as they go.
  have cut : (match Nat.toDigits 10 n.natAbs ++ rest with
      | '0' :: rest => (['0'], rest)
      | _ => digitRun (Nat.toDigits 10 n.natAbs ++ rest)) = (Nat.toDigits 10 n.natAbs, rest) := by
    rcases Nat.eq_zero_or_pos n.natAbs with zero | positive
    · rw [zero]
      rfl
    · split
      · rename_i same
        rw [digits, List.cons_append] at same
        obtain ⟨rfl, -⟩ := List.cons.inj same
        exact absurd digits (head_toDigits positive more)
      · exact digitRun_written (fun c => isDigit_toDigits) closed
  rw [toString_toList]
  by_cases negative : n < 0
  · rw [if_pos negative, List.cons_append, number_of_parts cut rfl Nat.toDigits_ne_nil short closed, back, if_pos rfl,
      Int.ofNat_natAbs_of_nonpos (by omega), Int.neg_neg]
  · have signed : (match Nat.toDigits 10 n.natAbs ++ rest with
        | '-' :: rest => (true, rest)
        | _ => (false, Nat.toDigits 10 n.natAbs ++ rest)) = (false, Nat.toDigits 10 n.natAbs ++ rest) := by
      split
      · rename_i same
        rw [digits, List.cons_append] at same
        obtain ⟨rfl, -⟩ := List.cons.inj same
        exact absurd digit (by decide)
      · rfl
    rw [if_neg negative, number_of_parts cut signed Nat.toDigits_ne_nil short closed, back, if_neg (by simp),
      Int.natAbs_of_nonneg (by omega)]

/-- No word begins like an integer. -/
theorem word?_written (n : Int) : word? ((toString n).toList ++ rest) = none := by
  obtain ⟨c, more, digits, digit⟩ := toDigits_cons n.natAbs
  have apart {d : Char} (letter : d.isDigit = false) : (d == c) = false := by
    rw [beq_eq_false_iff_ne]
    rintro rfl
    rw [digit] at letter
    cases letter
  rw [toString_toList, digits]
  by_cases negative : n < 0
  · simp [negative, word?, List.find?, List.isPrefixOf, apart (show 'I'.isDigit = false by decide)]
  · simp [negative, word?, List.find?, List.isPrefixOf, apart (show 'n'.isDigit = false by decide),
      apart (show 't'.isDigit = false by decide), apart (show 'f'.isDigit = false by decide),
      apart (show 'N'.isDigit = false by decide), apart (show 'I'.isDigit = false by decide),
      apart (show '-'.isDigit = false by decide)]

/-- The characters that integers begin with. -/
def figures : List Char := ['-', '0', '1', '2', '3', '4', '5', '6', '7', '8', '9']

theorem mem_figures {c : Char} (digit : c.isDigit = true) : c ∈ figures := by
  have all : ∀ n < 10, Char.ofNat (48 + n) ∈ figures := by decide
  simp only [Char.isDigit, Bool.and_eq_true, decide_eq_true_eq] at digit
  have low : 48 ≤ c.toNat := digit.1
  have high : c.toNat ≤ 57 := digit.2
  have member := all (c.toNat - 48) (by omega)
  rwa [show 48 + (c.toNat - 48) = c.toNat by omega, Char.ofNat_toNat] at member

theorem mem_written {n : Int} {c : Char} (member : c ∈ (toString n).toList) : c ∈ figures := by
  rw [toString_toList] at member
  split at member
  · rcases List.mem_cons.mp member with rfl | later
    · decide
    · exact mem_figures (isDigit_toDigits later)
  · exact mem_figures (isDigit_toDigits member)

theorem head_written (n : Int) : ∃ c more, (toString n).toList = c :: more ∧ c ∈ figures := by
  cases text : (toString n).toList with
  | nil =>
    rw [toString_toList] at text
    split at text
    · cases text
    · exact absurd text Nat.toDigits_ne_nil
  | cons c more => exact ⟨c, more, rfl, mem_written (n := n) (text ▸ List.mem_cons_self)⟩

end Retouch.Json
