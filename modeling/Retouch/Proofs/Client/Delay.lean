import Retouch.Client.Channel
import Retouch.Proofs.Number.Exact

/-!
# The delays of reconnects

The delay of a reconnect doubles each time, up to a limit. It is computed with amounts, and cannot be computed or told
when they leave the range of doubles.

## Main statements

* `timely_of_usual`: delays that start at a number that is not negative, and have a limit in the range of doubles, are
  exact, as long as there are not too many of them in a row.
-/
namespace Retouch.Client

open Number (Amount)

/-- The exact delay of a reconnect, of which there were so many in a row before. -/
noncomputable def exactDelay? (settings : Settings) (count : Nat) : Option EReal := do
  let initial ← settings.initialDelay.value?
  let most ← settings.maxDelay.value?
  return min (initial * ((2 ^ count : Nat) : ℝ)) most

/-- Whether the client reconnects once more after so many reconnects in a row. -/
def allows (settings : Settings) (count : Nat) : Bool := (Amount.whole count).below settings.maxAttempts

/-- The delay of a reconnect can be computed and told, and is exact, if there may be one. -/
def TimelyAt (settings : Settings) (count : Nat) : Prop := allows settings count = true →
  ∃ delay exact, reconnectDelay? settings count = some delay ∧ delay.hasFloat = true ∧
    exactDelay? settings count = some exact ∧ delay.value? = some exact

/-- All delays that the client may come to are as they should be. -/
def Timely (settings : Settings) : Prop := ∀ count, TimelyAt settings count

variable {settings : Settings}

/-- Fewer reconnects are allowed when more are. -/
theorem allows_of_le {count more : Nat} (le : count ≤ more) (allowed : allows settings more = true) :
    allows settings count = true := by
  unfold allows at *
  cases limit : settings.maxAttempts with
  | whole n =>
    simp only [limit, Amount.below, decide_eq_true_eq] at *
    omega
  | decimal x =>
    simp only [limit, Amount.below] at *
    cases read : Number.reading x with
    | nan => simp [read] at allowed
    | infinite negative => simpa [read] using allowed
    | finite b =>
      simp only [read, decide_eq_true_eq] at *
      have scaled : (count : ℤ) * b.quotient.2 ≤ more * b.quotient.2 :=
        Int.mul_le_mul_of_nonneg_right (by omega) (Int.natCast_nonneg _)
      omega

theorem hasFloat_of_value {delay : Amount} {v : EReal} (known : delay.value? = some v) (positive : 0 ≤ v)
    (small : v < ((2 ^ 1023 : ℝ) : EReal)) : delay.hasFloat = true := by
  cases delay with
  | decimal x => rfl
  | whole n =>
    obtain rfl := Option.some.inj known
    have positive : 0 ≤ n := by exact_mod_cast EReal.coe_nonneg.mp positive
    have small : (n : ℝ) < 2 ^ 1023 := EReal.coe_lt_coe_iff.mp small
    obtain ⟨m, rfl⟩ := Int.eq_ofNat_of_zero_le positive
    have log : ∀ k, 0 < k → ((m : Int) : ℝ) < 2 ^ k → m.log2 < k := by
      intro k some_k less
      by_cases none : m = 0
      · simpa [none] using some_k
      · exact (Nat.log2_lt none).mpr (by exact_mod_cast less)
    have finite := Number.isInf_ofNat (log 1023 (by decide) small)
    have unsigned : Number.ofInt m = Number.ofNat m := if_neg (by omega)
    rw [Amount.hasFloat, unsigned, finite]
    rfl

/-- Delays that start at a number that is not negative, and have a limit in the range of doubles, are exact, as long
as a decimal one is not doubled too often. -/
theorem timely_of_usual {initial most : EReal}
    (start : settings.initialDelay.value? = some initial) (limit : settings.maxDelay.value? = some most)
    (positive : 0 ≤ initial) (positive' : 0 ≤ most) (small : most < ((2 ^ 1023 : ℝ) : EReal))
    (few : ∀ x, settings.initialDelay = .decimal x → allows settings Amount.powerLimit = false) :
    Timely settings := by
  intro count allowed
  have inside : ∀ x, settings.initialDelay = .decimal x → count < Amount.powerLimit := by
    intro x decimal
    by_contra more
    rw [allows_of_le (Nat.le_of_not_lt more) allowed] at few
    cases few x decimal
  obtain ⟨product, w, doubled, value, exact⟩ := Amount.value?_doubled start inside
  have power : (0 : EReal) ≤ ((2 ^ count : ℝ) : EReal) := by
    rw [EReal.coe_nonneg]
    positivity
  have exact_nonneg : 0 ≤ initial * ((2 ^ count : ℝ) : EReal) := EReal.mul_nonneg positive power
  have more : ((2 ^ 1023 : ℝ) : EReal) ≤ ((2 ^ 1024 : ℝ) : EReal) := by
    rw [EReal.coe_le_coe_iff]
    exact pow_le_pow_right₀ one_le_two (by decide)
  have less : ((-2 ^ 1024 : ℝ) : EReal) < 0 := by
    rw [← EReal.coe_zero, EReal.coe_lt_coe_iff]
    exact neg_neg_of_pos (pow_pos two_pos 1024)
  -- A product that is out of the range is above the limit, as the exact one is.
  have capped : min w most = min (initial * ((2 ^ count : ℝ) : EReal)) most := by
    rcases exact with rfl | ⟨-, beyond⟩
    · rfl
    · cases beyond with
      | top large =>
        have above : most ≤ initial * ((2 ^ count : ℝ) : EReal) := (small.le.trans more).trans large
        rw [min_eq_right le_top, min_eq_right above]
      | bottom large =>
        exact absurd (exact_nonneg.trans large) (not_le_of_gt less)
  have value' := Amount.value?_smaller value limit
  rw [capped] at value'
  refine ⟨product.smaller settings.maxDelay, min (initial * ((2 ^ count : ℝ) : EReal)) most, ?_, ?_, ?_, value'⟩
  · unfold reconnectDelay?
    rw [doubled]
    rfl
  · exact hasFloat_of_value value' (le_min exact_nonneg positive') (min_lt_of_right_lt small)
  · unfold exactDelay?
    rw [start, limit, Nat.cast_pow, Nat.cast_ofNat]
    rfl

/-- The number of a double of so many digits. -/
theorem value?_decimal {x : Float} {m : Nat} {e : Int} (read : Number.reading x = .finite ⟨false, m, e⟩) :
    (Amount.decimal x).value? = some (((m : ℝ) * 2 ^ e : ℝ) : EReal) := by
  rw [Amount.value?, read, Number.Reading.value?, Number.value_positive]

/-- The delays that a client comes with are exact. -/
theorem timely_default : Timely {} := by
  have one : Number.reading 1.0 = .finite ⟨false, 2 ^ 52, -52⟩ := by decide +kernel
  have ten : Number.reading 10.0 = .finite ⟨false, 5 * 2 ^ 50, -49⟩ := by decide +kernel
  refine timely_of_usual (value?_decimal one) (value?_decimal ten) ?_ ?_ ?_ (fun _ _ => by decide)
  · rw [EReal.coe_nonneg]
    positivity
  · rw [EReal.coe_nonneg]
    positivity
  · have small : ((5 * 2 ^ 50 : Nat) : ℝ) * 2 ^ (-49 : Int) < 2 ^ 4 := by norm_num
    have power : (2 : ℝ) ^ 4 ≤ 2 ^ 1023 := pow_le_pow_right₀ one_le_two (by decide)
    exact EReal.coe_lt_coe_iff.mpr (small.trans_le power)

/-- Settings with more reconnects in a row than there are powers of two that are doubles. -/
def patient : Settings := { maxAttempts := .whole 2000 }

/-- There is no delay for a reconnect when the power of two is no double. -/
theorem not_timely_patient : ¬Timely patient := by
  intro timely
  obtain ⟨delay, exact, computed, -⟩ := timely Amount.powerLimit (by decide)
  exact absurd computed (by simp [reconnectDelay?, patient, Amount.doubled?])

end Retouch.Client
