import Retouch.Text.Utf8
import Mathlib.Tactic.SplitIfs

/-!
# Bytes that are read as a text

A text has only one form in bytes: a character that takes more bytes than it needs is refused, and so are
halves of pairs and codes beyond the last character. So bytes that are read as a text are those of the text.

The first byte of a character is told apart from those that follow it, so the characters of a text are found
again in its bytes from either end.

## Main statements

* `encode_decode`: bytes that are read as a text are its bytes.
* `encodeChar_append_inj`: the first character of a text is found in its bytes.
* `encodeChar_parts`: the bytes that can begin a character cannot follow in one.
-/
namespace Retouch.Text.Utf8

variable {b : UInt8} {rest more : Bytes} {c : Char} {bytes : Bytes} {cs : List Char}

theorem tail?_eq_some {bits : Nat} (found : tail? b = some bits) : bits < 64 ∧ b.toNat = 128 + bits := by
  unfold tail? at found
  split at found
  · rename_i range
    have same := Option.some.inj found
    omega
  · cases found

theorem follows_zero {taken : Bytes} {code code' : Nat} {after : Bytes}
    (found : follows taken code 0 rest = .ok (code', after)) : code = code' ∧ rest = after := by
  rw [follows] at found
  exact Prod.mk.inj (Except.ok.inj found)

/-- One more byte that follows. -/
theorem follows_succ {taken : Bytes} {code count : Nat} {result : Nat × Bytes}
    (found : follows taken code (count + 1) rest = .ok result) :
    ∃ b bits after, rest = b :: after ∧ bits < 64 ∧ b.toNat = 128 + bits ∧
      (∀ first, taken = [first] → inRange first b = true) ∧
      follows (b :: taken) (code * 64 + bits) count after = .ok result := by
  cases rest with
  | nil => simp [follows] at found
  | cons b after =>
    unfold follows at found
    split at found
    · cases found
    · rename_i bits first tailed
      obtain ⟨small, value⟩ := tail?_eq_some tailed
      split at found
      · rename_i range
        exact ⟨b, bits, after, rfl, small, value, fun other same => (List.cons.inj same).1 ▸ range, found⟩
      · cases found
    · rename_i bits tailed other
      obtain ⟨small, value⟩ := tail?_eq_some tailed
      exact ⟨b, bits, after, rfl, small, value, fun first same => absurd same (other first), found⟩

theorem toNat_ofNat_of_valid {n : Nat} (valid : n < 0xd800 ∨ (0xdfff < n ∧ n < 0x110000)) :
    (Char.ofNat n).toNat = n := by
  have isValid : n.isValidChar := valid
  rw [Char.ofNat, dif_pos isValid]
  rfl

theorem ofNat_toNat_of {n : Nat} (value : b.toNat = n) : UInt8.ofNat n = b := by
  rw [← value, UInt8.ofNat_toNat]

/-- The bytes from which a character is read are its bytes. -/
theorem encodeChar_of_decodeChar (read : decodeChar b rest = .ok (c, more)) :
    encodeChar c ++ more = b :: rest := by
  unfold decodeChar at read
  split at read
  · cases read
  · rename_i count bits first
    obtain ⟨⟨code, after⟩, followed, same⟩ : ∃ result, follows [b] bits count rest = .ok result ∧
        (Char.ofNat result.1, result.2) = (c, more) := by
      cases followed : follows [b] bits count rest with
      | error e => rw [followed] at read; cases read
      | ok result =>
        rw [followed] at read
        exact ⟨result, rfl, Except.ok.inj read⟩
    obtain ⟨rfl, rfl⟩ := Prod.mk.inj same
    unfold head? at first
    dsimp only at first
    split_ifs at first with one two three four
    · obtain ⟨rfl, rfl⟩ := Prod.mk.inj (Option.some.inj first)
      obtain ⟨rfl, rfl⟩ := follows_zero followed
      have code := toNat_ofNat_of_valid (n := b.toNat) (by omega)
      simp only [encodeChar, code, if_pos one, UInt8.ofNat_toNat, List.singleton_append]
    · obtain ⟨rfl, lead_bits⟩ := Prod.mk.inj (Option.some.inj first)
      obtain ⟨b₁, bits₁, rest₁, rfl, small₁, value₁, -, followed⟩ := follows_succ followed
      obtain ⟨rfl, rfl⟩ := follows_zero followed
      have code := toNat_ofNat_of_valid (n := bits * 64 + bits₁) (by omega)
      have first : lead 0xc0 ((bits * 64 + bits₁) / 64) = b := ofNat_toNat_of (by omega)
      have second : follow (bits * 64 + bits₁) 1 = b₁ := ofNat_toNat_of (by omega)
      simp only [encodeChar, code]
      rw [if_neg (by omega), if_pos (by omega), first, second]
      rfl
    · obtain ⟨rfl, lead_bits⟩ := Prod.mk.inj (Option.some.inj first)
      obtain ⟨b₁, bits₁, rest₁, rfl, small₁, value₁, range, followed⟩ := follows_succ followed
      obtain ⟨b₂, bits₂, rest₂, rfl, small₂, value₂, -, followed⟩ := follows_succ followed
      obtain ⟨rfl, rfl⟩ := follows_zero followed
      -- The second byte keeps the code above the shorter forms and out of the halves of pairs.
      have range := range b rfl
      unfold inRange at range
      dsimp only at range
      have low : bits = 0 → 32 ≤ bits₁ := by
        intro none
        rw [if_pos (by omega)] at range
        simp only [decide_eq_true_eq] at range
        omega
      have high : bits = 13 → bits₁ < 32 := by
        intro last
        rw [if_neg (by omega), if_pos (by omega)] at range
        simp only [decide_eq_true_eq] at range
        omega
      have code := toNat_ofNat_of_valid (n := (bits * 64 + bits₁) * 64 + bits₂) (by omega)
      have first : lead 0xe0 (((bits * 64 + bits₁) * 64 + bits₂) / 4096) = b := ofNat_toNat_of (by omega)
      have second : follow ((bits * 64 + bits₁) * 64 + bits₂) 64 = b₁ := ofNat_toNat_of (by omega)
      have third : follow ((bits * 64 + bits₁) * 64 + bits₂) 1 = b₂ := ofNat_toNat_of (by omega)
      simp only [encodeChar, code]
      rw [if_neg (by omega), if_neg (by omega), if_pos (by omega), first, second, third]
      rfl
    · obtain ⟨rfl, lead_bits⟩ := Prod.mk.inj (Option.some.inj first)
      obtain ⟨b₁, bits₁, rest₁, rfl, small₁, value₁, range, followed⟩ := follows_succ followed
      obtain ⟨b₂, bits₂, rest₂, rfl, small₂, value₂, -, followed⟩ := follows_succ followed
      obtain ⟨b₃, bits₃, rest₃, rfl, small₃, value₃, -, followed⟩ := follows_succ followed
      obtain ⟨rfl, rfl⟩ := follows_zero followed
      -- Again the second byte, which keeps the code below the last character.
      have range := range b rfl
      unfold inRange at range
      dsimp only at range
      have low : bits = 0 → 16 ≤ bits₁ := by
        intro none
        rw [if_neg (by omega), if_neg (by omega), if_pos (by omega)] at range
        simp only [decide_eq_true_eq] at range
        omega
      have high : bits = 4 → bits₁ < 16 := by
        intro last
        rw [if_neg (by omega), if_neg (by omega), if_neg (by omega), if_pos (by omega)] at range
        simp only [decide_eq_true_eq] at range
        omega
      have code := toNat_ofNat_of_valid (n := ((bits * 64 + bits₁) * 64 + bits₂) * 64 + bits₃) (by omega)
      have first : lead 0xf0 ((((bits * 64 + bits₁) * 64 + bits₂) * 64 + bits₃) / 262144) = b :=
        ofNat_toNat_of (by omega)
      have second : follow (((bits * 64 + bits₁) * 64 + bits₂) * 64 + bits₃) 4096 = b₁ := ofNat_toNat_of (by omega)
      have third : follow (((bits * 64 + bits₁) * 64 + bits₂) * 64 + bits₃) 64 = b₂ := ofNat_toNat_of (by omega)
      have fourth : follow (((bits * 64 + bits₁) * 64 + bits₂) * 64 + bits₃) 1 = b₃ := ofNat_toNat_of (by omega)
      simp only [encodeChar, code]
      rw [if_neg (by omega), if_neg (by omega), if_neg (by omega), first, second, third, fourth]
      rfl

theorem decodeFrom_eq_ok {fuel place : Nat} (enough : bytes.length ≤ fuel)
    (read : decodeFrom fuel place bytes = .ok cs) : encode cs = bytes := by
  induction fuel generalizing place bytes cs with
  | zero =>
    obtain rfl : bytes = [] := List.length_eq_zero_iff.mp (Nat.le_zero.mp enough)
    cases read
    rfl
  | succ fuel ih =>
    cases bytes with
    | nil =>
      cases read
      rfl
    | cons b rest =>
      unfold decodeFrom at read
      split at read
      · cases read
      · rename_i c more first
        have whole := encodeChar_of_decodeChar first
        have shorter : more.length < (b :: rest).length := by
          have : 0 < (encodeChar c).length := by
            obtain ⟨_, _, bytes, -⟩ := decodeChar_encodeChar c []
            rw [bytes]
            simp
          rw [← whole, List.length_append]
          omega
        obtain ⟨cs', later, rfl⟩ : ∃ cs', decodeFrom fuel (place + (encodeChar c).length) more = .ok cs' ∧
            cs = c :: cs' := by
          cases later : decodeFrom fuel (place + (encodeChar c).length) more with
          | error e => rw [later] at read; cases read
          | ok cs' =>
            rw [later] at read
            exact ⟨cs', rfl, (Except.ok.inj read).symm⟩
        rw [← whole, ← ih (by simp only [List.length_cons] at enough shorter; omega) later]
        rfl

/-- Bytes that are read as a text are its bytes. -/
theorem encode_decode (read : decode bytes = .ok cs) : encode cs = bytes := decodeFrom_eq_ok (Nat.le_refl _) read

/-! ### Characters in bytes -/

/-- The first character of a text is found in its bytes. -/
theorem encodeChar_append_inj {d : Char} (same : encodeChar c ++ rest = encodeChar d ++ more) :
    c = d ∧ rest = more := by
  obtain ⟨b, front, bytes, read⟩ := decodeChar_encodeChar c rest
  obtain ⟨b', front', bytes', read'⟩ := decodeChar_encodeChar d more
  rw [bytes, bytes', List.cons_append, List.cons_append] at same
  obtain ⟨rfl, tails⟩ := List.cons.inj same
  rw [tails, read'] at read
  exact ⟨(Prod.mk.inj (Except.ok.inj read)).1.symm, (Prod.mk.inj (Except.ok.inj read)).2.symm⟩

theorem tail?_of_small (small : b.toNat < 0x80) : tail? b = none := by
  unfold tail?
  rw [if_neg (by omega)]

theorem tail?_lead {base n : Nat} (high : 0xc0 ≤ base) (byte : base + n < 256) : tail? (lead base n) = none := by
  unfold tail? lead
  rw [toNat_ofNat _ byte, if_neg (by omega)]

/-- The bytes that can begin a character cannot follow in one. -/
theorem encodeChar_parts (c : Char) :
    ∃ b more, encodeChar c = b :: more ∧ tail? b = none ∧ ∀ byte ∈ more, tail? byte ≠ none := by
  have valid : c.toNat < 0xd800 ∨ (0xdfff < c.toNat ∧ c.toNat < 0x110000) := c.valid
  have follows (code unit : Nat) : tail? (follow code unit) ≠ none := by
    rw [tail?_follow]
    simp
  unfold encodeChar
  dsimp only
  generalize c.toNat = code at valid
  split_ifs with one two three
  · exact ⟨_, [], rfl, tail?_of_small (by rw [toNat_ofNat _ (by omega)]; exact one), by simp⟩
  · exact ⟨_, _, rfl, tail?_lead (by omega) (by omega), by simp [follows]⟩
  · exact ⟨_, _, rfl, tail?_lead (by omega) (by omega), by simp [follows]⟩
  · exact ⟨_, _, rfl, tail?_lead (by omega) (by omega), by simp [follows]⟩

end Retouch.Text.Utf8
