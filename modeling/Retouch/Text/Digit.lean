import Retouch.Text.Blank

/-!
# Digits and integers

Every script's decimal digits come as ten consecutive characters, zero first. A number may be
written with the digits of any script, even of several; an integer may also stand between blanks,
have a sign, and have single underscores between its digits. In hexadecimal small letters are
written, and both cases are read. Main statement: `bytesOfHex?_hexOfBytes`, the hexadecimal digits of
bytes read as the same bytes.
-/
namespace Retouch.Text

/-- The zeros of the scripts that have decimal digits. -/
def digitZeros : List Nat := [
  0x30, 0x660, 0x6f0, 0x7c0, 0x966, 0x9e6, 0xa66, 0xae6, 0xb66, 0xbe6,
  0xc66, 0xce6, 0xd66, 0xde6, 0xe50, 0xed0, 0xf20, 0x1040, 0x1090, 0x17e0,
  0x1810, 0x1946, 0x19d0, 0x1a80, 0x1a90, 0x1b50, 0x1bb0, 0x1c40, 0x1c50, 0xa620,
  0xa8d0, 0xa900, 0xa9d0, 0xa9f0, 0xaa50, 0xabf0, 0xff10, 0x104a0, 0x10d30, 0x11066,
  0x110f0, 0x11136, 0x111d0, 0x112f0, 0x11450, 0x114d0, 0x11650, 0x116c0, 0x11730, 0x118e0,
  0x11950, 0x11c50, 0x11d50, 0x11da0, 0x16a60, 0x16ac0, 0x16b50, 0x1d7ce, 0x1d7d8, 0x1d7e2,
  0x1d7ec, 0x1d7f6, 0x1e140, 0x1e2f0, 0x1e950, 0x1fbf0]

/-- The value of a decimal digit. -/
def digitValue? (c : Char) : Option Nat :=
  if c.toNat < 128 then
    if c.isDigit then some (c.toNat - 48) else none
  else (digitZeros.find? fun start => start ≤ c.toNat && c.toNat < start + 10).map (c.toNat - ·)

def isDigit (c : Char) : Bool := (digitValue? c).isSome

/-- The number that a run of digits writes; a character that is no digit counts as zero. -/
def digitsValue (cs : List Char) : Nat :=
  cs.foldl (fun n c => 10 * n + (digitValue? c).getD 0) 0

theorem isDigit_of_ascii (c : Char) (digit : c.isDigit = true) : isDigit c = true := by
  have low : c.toNat < 128 := by
    simp only [Char.isDigit, Bool.and_eq_true, decide_eq_true_eq] at digit
    have : c.val ≤ 57 := digit.2
    have : c.val.toNat ≤ 57 := this
    show c.val.toNat < 128
    omega
  simp [isDigit, digitValue?, low, digit]

/-- Digits with single underscores between them; `pending` when a digit has to come next. -/
def groupedDigits (pending : Bool) : List Char → Option (List Char)
  | [] => if pending then none else some []
  | c :: rest =>
    if c = '_' then if pending then none else groupedDigits true rest
    else if isDigit c then (groupedDigits false rest).map (c :: ·)
    else none

/-- An integer is read when it has this many digits at most. -/
def longestInteger : Nat := 4300

/-- The integer that a text writes. -/
def integer? (cs : List Char) : Option Int :=
  let body := trim cs
  let (negative, body) := match body with
    | '-' :: rest => (true, rest)
    | '+' :: rest => (false, rest)
    | _ => (false, body)
  match groupedDigits true body with
  | some digits =>
    if longestInteger < digits.length then none
    else
      let size : Int := (digitsValue digits : Nat)
      some (if negative then -size else size)
  | none => none

/-- The bytes of files and messages. -/
abbrev Bytes := List UInt8

/-- A number in hexadecimal, to a width at least. -/
def hexChars (width n : Nat) : List Char :=
  let digits := Nat.toDigits 16 n
  List.replicate (width - digits.length) '0' ++ digits

/-- What a hexadecimal digit counts. -/
def hexValue? (c : Char) : Option Nat :=
  if '0' ≤ c ∧ c ≤ '9' then some (c.toNat - 48)
  else if 'a' ≤ c ∧ c ≤ 'f' then some (c.toNat - 87)
  else if 'A' ≤ c ∧ c ≤ 'F' then some (c.toNat - 55)
  else none

/-- Two digits for each byte. -/
def hexOfBytes (bytes : Bytes) : List Char := bytes.flatMap fun b => hexChars 2 b.toNat

/-- The bytes of pairs of digits. -/
def bytesOfHex? : List Char → Option Bytes
  | [] => some []
  | [_] => none
  | high :: low :: rest =>
    match hexValue? high, hexValue? low with
    | some h, some l => (bytesOfHex? rest).map (UInt8.ofNat (16 * h + l) :: ·)
    | _, _ => none

theorem hexValue?_digitChar : ∀ d < 16, hexValue? (Nat.digitChar d) = some d := by decide

theorem hexChars_two (n : Nat) (small : n < 256) :
    hexChars 2 n = [Nat.digitChar (n / 16), Nat.digitChar (n % 16)] := by
  by_cases one : n < 16
  · have digits : Nat.toDigits 16 n = [Nat.digitChar n] := Nat.toDigits_of_lt_base one
    simp [hexChars, digits, Nat.div_eq_of_lt one, Nat.mod_eq_of_lt one, Nat.digitChar]
  · have high : n / 16 < 16 := by omega
    have digits : Nat.toDigits 16 n = [Nat.digitChar (n / 16), Nat.digitChar (n % 16)] := by
      rw [Nat.toDigits_of_base_le (by decide) (by omega), Nat.toDigits_of_lt_base high]
      rfl
    simp [hexChars, digits]

private theorem bytesOfHex?_hexChars (b : UInt8) (rest : List Char) :
    bytesOfHex? (hexChars 2 b.toNat ++ rest) = (bytesOfHex? rest).map (b :: ·) := by
  have small := b.toNat_lt
  have sum : 16 * (b.toNat / 16) + b.toNat % 16 = b.toNat := by omega
  rw [hexChars_two _ small]
  simp only [List.cons_append, List.nil_append, bytesOfHex?, sum, UInt8.ofNat_toNat,
    hexValue?_digitChar (b.toNat / 16) (by omega), hexValue?_digitChar (b.toNat % 16) (by omega)]

/-- The digits of bytes read as the same bytes. -/
theorem bytesOfHex?_hexOfBytes (bytes : Bytes) : bytesOfHex? (hexOfBytes bytes) = some bytes := by
  induction bytes with
  | nil => rfl
  | cons b rest ih =>
    have split : hexOfBytes (b :: rest) = hexChars 2 b.toNat ++ hexOfBytes rest := rfl
    rw [split, bytesOfHex?_hexChars, ih, Option.map_some]

end Retouch.Text
