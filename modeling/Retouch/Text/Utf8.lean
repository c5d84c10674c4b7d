import Retouch.Text.Printable

/-!
# UTF-8

Texts as bytes and back. Bytes that are no text are refused with the place and the kind of the first
fault. Main statement: `decode_encode`, reading what was written gives the text again.
-/
namespace Retouch.Text

namespace Utf8

def lead (base n : Nat) : UInt8 := UInt8.ofNat (base + n)

/-- The six bits of a code that count in `unit`s, as a following byte. -/
def follow (code unit : Nat) : UInt8 := UInt8.ofNat (0x80 + code / unit % 64)

/-- The one to four bytes of a character. -/
def encodeChar (c : Char) : Bytes :=
  let code := c.toNat
  if code < 0x80 then [UInt8.ofNat code]
  else if code < 0x800 then [lead 0xc0 (code / 64), follow code 1]
  else if code < 0x10000 then [lead 0xe0 (code / 4096), follow code 64, follow code 1]
  else [lead 0xf0 (code / 262144), follow code 4096, follow code 64, follow code 1]

def encode (cs : List Char) : Bytes := cs.flatMap encodeChar

/-- What is wrong with bytes. -/
inductive Fault where
  | startByte
  | continuation
  | endOfData
  deriving DecidableEq, Repr

def Fault.describe : Fault → String
  | .startByte => "invalid start byte"
  | .continuation => "invalid continuation byte"
  | .endOfData => "unexpected end of data"

/-- A fault, the place of its first byte, and its bytes. -/
structure DecodeError where
  fault : Fault
  start : Nat
  bytes : Bytes
  deriving DecidableEq, Repr

def DecodeError.message (e : DecodeError) : String :=
  match e.bytes with
  | [b] =>
    let digits := String.ofList (hexChars 2 b.toNat)
    s!"'utf-8' codec can't decode byte 0x{digits} in position {e.start}: {e.fault.describe}"
  | bytes =>
    let last := e.start + bytes.length - 1
    s!"'utf-8' codec can't decode bytes in position {e.start}-{last}: {e.fault.describe}"

/-- The six bits that a following byte carries. -/
def tail? (b : UInt8) : Option Nat :=
  if 0x80 ≤ b.toNat ∧ b.toNat < 0xc0 then some (b.toNat - 0x80) else none

/-- How many bytes follow a first byte, and the bits that it carries itself. -/
def head? (b : UInt8) : Option (Nat × Nat) :=
  let n := b.toNat
  if n < 0x80 then some (0, n)
  else if 0xc2 ≤ n ∧ n < 0xe0 then some (1, n - 0xc0)
  else if 0xe0 ≤ n ∧ n < 0xf0 then some (2, n - 0xe0)
  else if 0xf0 ≤ n ∧ n < 0xf5 then some (3, n - 0xf0)
  else none

/-- Whether the second byte keeps the code in range: above the shorter forms, below the end, and out of
the surrogates. -/
def inRange (first second : UInt8) : Bool :=
  let n := first.toNat
  let m := second.toNat
  if n = 0xe0 then 0xa0 ≤ m
  else if n = 0xed then m < 0xa0
  else if n = 0xf0 then 0x90 ≤ m
  else if n = 0xf4 then m < 0x90
  else true

/-- Reads `count` following bytes; `taken` holds the bytes before them, last one first. -/
def follows (taken : Bytes) (code : Nat) : Nat → Bytes → Except (Fault × Bytes) (Nat × Bytes)
  | 0, rest => .ok (code, rest)
  | _ + 1, [] => .error (.endOfData, taken.reverse)
  | count + 1, b :: rest =>
    match tail? b, taken with
    | none, _ => .error (.continuation, taken.reverse)
    | some bits, [first] =>
      if inRange first b then follows (b :: taken) (code * 64 + bits) count rest
      else .error (.continuation, taken.reverse)
    | some bits, _ => follows (b :: taken) (code * 64 + bits) count rest

/-- Reads one character from bytes of which there is one at least. -/
def decodeChar (b : UInt8) (rest : Bytes) : Except (Fault × Bytes) (Char × Bytes) :=
  match head? b with
  | none => .error (.startByte, [b])
  | some (count, bits) => (follows [b] bits count rest).map fun (code, rest) => (Char.ofNat code, rest)

/-- Reads characters; `place` is where the bytes begin, and `fuel` bounds their number. -/
def decodeFrom : Nat → Nat → Bytes → Except DecodeError (List Char)
  | _, _, [] => .ok []
  | 0, _, _ => .ok []
  | fuel + 1, place, b :: rest =>
    match decodeChar b rest with
    | .error (fault, bytes) => .error ⟨fault, place, bytes⟩
    | .ok (c, more) =>
      (decodeFrom fuel (place + (encodeChar c).length) more).map (c :: ·)

/-- The text that bytes stand for. -/
def decode (bytes : Bytes) : Except DecodeError (List Char) := decodeFrom bytes.length 0 bytes

/-- How many bytes a text takes. -/
def size (cs : List Char) : Nat := (encode cs).length

theorem encode_append (xs ys : List Char) : encode (xs ++ ys) = encode xs ++ encode ys := by
  simp [encode]

theorem size_append (xs ys : List Char) : size (xs ++ ys) = size xs + size ys := by
  simp [size, encode_append]

theorem toNat_ofNat (n : Nat) (small : n < 256) : (UInt8.ofNat n).toNat = n := by
  simp [UInt8.toNat_ofNat', Nat.mod_eq_of_lt small]

theorem tail?_follow (code unit : Nat) : tail? (follow code unit) = some (code / unit % 64) := by
  have small : code / unit % 64 < 64 := Nat.mod_lt _ (by decide)
  unfold tail? follow
  rw [toNat_ofNat _ (by omega)]
  have low : 128 ≤ 128 + code / unit % 64 ∧ 128 + code / unit % 64 < 192 := by omega
  rw [if_pos low, Nat.add_sub_cancel_left]

theorem decodeChar_encodeChar (c : Char) (rest : Bytes) :
    ∃ b more, encodeChar c = b :: more ∧ decodeChar b (more ++ rest) = .ok (c, rest) := by
  have valid : c.toNat < 0xd800 ∨ (0xdfff < c.toNat ∧ c.toNat < 0x110000) := c.valid
  have back : Char.ofNat c.toNat = c := Char.ofNat_toNat c
  generalize code_def : c.toNat = code at valid back
  unfold encodeChar
  rw [code_def]
  simp only
  by_cases one : code < 0x80
  · refine ⟨_, _, if_pos one, ?_⟩
    have value := toNat_ofNat code (by omega)
    simp [decodeChar, head?, value, one, follows, Except.map, back]
  · rw [if_neg one]
    by_cases two : code < 0x800
    · refine ⟨_, _, if_pos two, ?_⟩
      have value := toNat_ofNat (0xc0 + code / 64) (by omega)
      have first : head? (lead 0xc0 (code / 64)) = some (1, code / 64) := by
        unfold head? lead
        rw [value]
        rw [if_neg (by omega), if_pos (by omega), Nat.add_sub_cancel_left]
      have range : inRange (lead 0xc0 (code / 64)) (follow code 1) = true := by
        unfold inRange lead
        rw [value]
        rw [if_neg (by omega), if_neg (by omega), if_neg (by omega), if_neg (by omega)]
      have whole : code / 64 * 64 + code / 1 % 64 = code := by omega
      simp only [decodeChar, first, follows, tail?_follow, range, whole, Except.map, back,
        List.cons_append, List.nil_append, if_true]
    · rw [if_neg two]
      by_cases three : code < 0x10000
      · refine ⟨_, _, if_pos three, ?_⟩
        have value := toNat_ofNat (0xe0 + code / 4096) (by omega)
        have second := toNat_ofNat (0x80 + code / 64 % 64) (by omega)
        have first : head? (lead 0xe0 (code / 4096)) = some (2, code / 4096) := by
          unfold head? lead
          rw [value]
          rw [if_neg (by omega), if_neg (by omega), if_pos (by omega), Nat.add_sub_cancel_left]
        have range : inRange (lead 0xe0 (code / 4096)) (follow code 64) = true := by
          unfold inRange lead follow
          rw [value, second]
          by_cases low : code / 4096 = 0
          · simp [low]; omega
          · by_cases high : code / 4096 = 13
            · simp [high]; omega
            · rw [if_neg (by omega), if_neg (by omega), if_neg (by omega), if_neg (by omega)]
        have whole : (code / 4096 * 64 + code / 64 % 64) * 64 + code / 1 % 64 = code := by omega
        simp only [decodeChar, first, follows, tail?_follow, range, whole, Except.map, back,
          List.cons_append, List.nil_append, if_true]
      · refine ⟨_, _, if_neg three, ?_⟩
        have value := toNat_ofNat (0xf0 + code / 262144) (by omega)
        have second := toNat_ofNat (0x80 + code / 4096 % 64) (by omega)
        have first : head? (lead 0xf0 (code / 262144)) = some (3, code / 262144) := by
          unfold head? lead
          rw [value]
          rw [if_neg (by omega), if_neg (by omega), if_neg (by omega), if_pos (by omega),
            Nat.add_sub_cancel_left]
        have range : inRange (lead 0xf0 (code / 262144)) (follow code 4096) = true := by
          unfold inRange lead follow
          rw [value, second]
          by_cases low : code / 262144 = 0
          · simp [low]; omega
          · by_cases high : code / 262144 = 4
            · simp [high]; omega
            · rw [if_neg (by omega), if_neg (by omega), if_neg (by omega), if_neg (by omega)]
        have whole : ((code / 262144 * 64 + code / 4096 % 64) * 64 + code / 64 % 64) * 64 +
            code / 1 % 64 = code := by omega
        simp only [decodeChar, first, follows, tail?_follow, range, whole, Except.map, back,
          List.cons_append, List.nil_append, if_true]

theorem decodeFrom_encode (cs : List Char) (fuel place : Nat) (enough : (encode cs).length ≤ fuel) :
    decodeFrom fuel place (encode cs) = .ok cs := by
  induction cs generalizing fuel place with
  | nil => cases fuel <;> rfl
  | cons c cs ih =>
    obtain ⟨b, more, bytes, read⟩ := decodeChar_encodeChar c (encode cs)
    have split : encode (c :: cs) = b :: (more ++ encode cs) := by
      simp [encode, bytes]
    rw [split] at enough ⊢
    cases fuel with
    | zero => simp at enough
    | succ fuel =>
      simp only [decodeFrom, read]
      rw [ih]
      · rfl
      · simp only [List.length_cons, List.length_append] at enough
        omega

/-- Reading what was written gives the text again. -/
theorem decode_encode (cs : List Char) : decode (encode cs) = .ok cs :=
  decodeFrom_encode cs _ 0 (Nat.le_refl _)

end Utf8

end Retouch.Text
