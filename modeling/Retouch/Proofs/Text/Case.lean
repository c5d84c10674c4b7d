import Retouch.Proofs.Text.Utf8
import Retouch.Text.Case

/-!
# What lower case makes of a character

Lower case puts something in the place of each character. What it is depends on the character alone, but for the two
forms of the small sigma. A character beyond the first 128 stays one of these, with two exceptions: the Kelvin sign
becomes a plain k, and the capital i with a dot becomes a plain i with the dot behind it.

## Main statements

* `lowers_lowerChar`: no other character beyond the first 128 becomes one of these.
* `mem_lowerAfter` and `of_mem_lowerAfter`: the characters of a text in lower case are those of its characters.
* `lowerAfter_append`: a text without a capital sigma is in lower case what it is alone.
-/
namespace Retouch.Text

variable {c d : Char} {cs here before rest : List Char}

/-- The first 128 characters. -/
def asciiChars : List Char := (List.range 128).map Char.ofNat

/-- What holds of the first 128 characters one by one. -/
theorem of_ascii {p : Char → Bool} (all : asciiChars.all p = true) (ascii : c.toNat < 128) : p c = true :=
  List.all_eq_true.mp all c (List.mem_map.mpr ⟨c.toNat, List.mem_range.mpr ascii, Char.ofNat_toNat c⟩)

theorem ascii_of_isAlpha (letter : c.isAlpha = true) : c.toNat < 128 := by
  have most : c.val ≤ 122 := by
    rcases (Bool.or_eq_true _ _).mp letter with capital | small
    · have between : c.val ≥ 'A'.val ∧ c.val ≤ 'Z'.val := of_decide_eq_true capital
      exact UInt32.le_trans between.2 (by decide)
    · exact of_decide_eq_true ((Bool.and_eq_true _ _).mp small).2
  have most_ : c.toNat ≤ 122 := most
  omega

def kelvinSign : Char := Char.ofNat 0x212a

/-- The characters that take the place of one in lower case. -/
inductive Lowers : Char → List Char → Prop
  | plain {c : Char} (ascii : c.toNat < 128) : Lowers c [c.toLower]
  | kelvin : Lowers kelvinSign ['k']
  | dotted : Lowers 'İ' ['i', Char.ofNat 0x307]
  | beyond {c d : Char} (far : 128 ≤ c.toNat) (far' : 128 ≤ d.toNat) : Lowers c [d]

/-- A run begins beyond the first 128 characters and leads to characters beyond them, or it is that of the Kelvin sign. -/
def CaseRun.stays (run : CaseRun) : Bool :=
  let low := run.first + run.shift
  let high := run.last + run.shift
  run.last < 128 || (run.first == 0x212a && run.last == 0x212a && run.shift == -8383) ||
    (128 ≤ low && (high < 0xd800 || (0xdfff < low && high < 0x110000)))

theorem stays_of_mem {run : CaseRun} (member : run ∈ caseRuns) : run.stays = true :=
  List.all_eq_true.mp (by decide +kernel) run member

theorem lowers_lowerChar (far : 128 ≤ c.toNat) : Lowers c [lowerChar c] := by
  unfold lowerChar
  rw [if_neg (Nat.not_lt.mpr far)]
  cases found : caseRuns.find? (·.holds c.toNat) with
  | none => exact .beyond far far
  | some run =>
    have stays := stays_of_mem (List.mem_of_find?_eq_some found)
    have holds := List.find?_some found
    simp only [CaseRun.holds, Bool.and_eq_true, decide_eq_true_eq] at holds
    obtain ⟨⟨least, most⟩, -⟩ := holds
    simp only [CaseRun.stays, Bool.or_eq_true, Bool.and_eq_true, decide_eq_true_eq, beq_iff_eq] at stays
    -- The run is one of plain letters, that of the Kelvin sign, or one that stays beyond them.
    rcases stays with (early | ⟨⟨first, last⟩, shift⟩) | ⟨low, high⟩
    · omega
    · have sign : c.toNat = 0x212a := by omega
      have same : c = kelvinSign := by rw [kelvinSign, ← sign, Char.ofNat_toNat]
      dsimp only
      rw [sign, shift, same]
      exact .kelvin
    · refine .beyond far ?_
      rw [Utf8.toNat_ofNat_of_valid (by omega)]
      omega

/-- The first character of a text in lower case, and behind it the others. -/
theorem lowerAfter_cons (before : List Char) (c : Char) (rest : List Char) :
    ∃ here, Lowers c here ∧ lowerAfter before (c :: rest) = here ++ lowerAfter (c :: before) rest := by
  rw [lowerAfter]
  refine ⟨_, ?_, rfl⟩
  split
  next ascii => exact .plain ascii
  next beyond =>
    have far := Nat.not_lt.mp beyond
    split
    next sigma =>
      split
      · exact .beyond far (by decide)
      · exact .beyond far (by decide)
    next =>
      split
      next dotted => exact dotted ▸ .dotted
      next => exact lowers_lowerChar far

theorem mem_lowerAfter (member : c ∈ cs) (before : List Char) : ∃ here, Lowers c here ∧ here ⊆ lowerAfter before cs := by
  induction cs generalizing before with
  | nil => cases member
  | cons first rest ih =>
    obtain ⟨here, lowers, eq⟩ := lowerAfter_cons before first rest
    rcases List.mem_cons.mp member with rfl | later
    · exact ⟨here, lowers, eq ▸ List.subset_append_left _ _⟩
    · obtain ⟨there, lowers', inside⟩ := ih later (first :: before)
      exact ⟨there, lowers', eq ▸ List.subset_append_of_subset_right _ inside⟩

theorem of_mem_lowerAfter (member : d ∈ lowerAfter before cs) : ∃ c ∈ cs, ∃ here, Lowers c here ∧ d ∈ here := by
  induction cs generalizing before with
  | nil => cases member
  | cons first rest ih =>
    obtain ⟨here, lowers, eq⟩ := lowerAfter_cons before first rest
    rcases List.mem_append.mp (eq ▸ member) with inside | later
    · exact ⟨first, List.mem_cons_self, here, lowers, inside⟩
    · obtain ⟨c, member, found⟩ := ih later
      exact ⟨c, List.mem_cons_of_mem _ member, found⟩

/-- A plain character is in lower case what it is alone. -/
theorem toLower_mem_lowerChars (ascii : c.toNat < 128) (member : c ∈ cs) : c.toLower ∈ lowerChars cs := by
  obtain ⟨here, lowers, inside⟩ := mem_lowerAfter member []
  cases lowers with
  | plain => exact inside (List.mem_singleton_self _)
  | kelvin | dotted => exact absurd ascii (by decide)
  | beyond far => omega

theorem lowerAfter_cons_of_ne (other : c ≠ 'Σ') (before rest : List Char) :
    lowerAfter before (c :: rest) = lowerChars [c] ++ lowerAfter (c :: before) rest := by
  simp only [lowerChars, lowerAfter, other, if_false, List.append_nil]

theorem lowerAfter_flatMap (front : List Char) (without : 'Σ' ∉ front) (before rest : List Char) :
    lowerAfter before (front ++ rest) =
      front.flatMap (fun c => lowerChars [c]) ++ lowerAfter (front.reverse ++ before) rest := by
  induction front generalizing before with
  | nil => rfl
  | cons c front ih =>
    obtain ⟨other, without⟩ := not_or.mp (mt List.mem_cons.mpr without)
    rw [List.cons_append, lowerAfter_cons_of_ne (Ne.symm other), ih without, List.flatMap_cons, List.append_assoc,
      List.reverse_cons, List.append_assoc]
    rfl

/-- Without a capital sigma in it, a text is in lower case what it is alone. -/
theorem lowerAfter_append (front : List Char) (without : 'Σ' ∉ front) (before rest : List Char) :
    lowerAfter before (front ++ rest) = lowerChars front ++ lowerAfter (front.reverse ++ before) rest := by
  have alone := lowerAfter_flatMap front without [] []
  rw [List.append_nil, lowerAfter, List.append_nil] at alone
  rw [lowerAfter_flatMap front without, lowerChars, alone]

end Retouch.Text
