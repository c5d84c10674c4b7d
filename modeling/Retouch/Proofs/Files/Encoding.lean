import Retouch.Proofs.Files.Disk
import Retouch.Proofs.Text.Utf8

/-!
# Bytes of a text, character by character

In all encodings the bytes of a text are those of its characters, one after the other, behind a mark if the
encoding has one. So a text has bytes just if each of its characters has, and a text that was read from a file
has the bytes of the file unless its mark is missing there.

## Main statements

* `encode_eq_ok_iff`: the bytes of a text.
* `encode_iff_marked`: whether a text that was read is written back as the bytes that it was read from.
-/
namespace Retouch.Files.Encoding

variable {encoding : Encoding} {text other : List Char} {bytes : Text.Bytes} {c : Char}

/-- What stands in front of each text. -/
def opening : Encoding → Text.Bytes
  | .signedUtf8 => mark
  | _ => []

def charBytes : Encoding → Char → Text.Bytes
  | .utf8, c | .signedUtf8, c => Text.Utf8.encodeChar c
  | .latin1, c | .ascii, c => [UInt8.ofNat c.toNat]

/-- The bytes of a text without what stands in front. -/
def body (encoding : Encoding) (text : List Char) : Text.Bytes := text.flatMap encoding.charBytes

/-- Whether each character has bytes. -/
def Covers (encoding : Encoding) (text : List Char) : Prop := ∀ c ∈ text, c.toNat < encoding.limit

/-- The bytes start with what stands in front of each text. -/
def Marked (encoding : Encoding) (bytes : Text.Bytes) : Prop := encoding.opening <+: bytes

instance (encoding : Encoding) (bytes : Text.Bytes) : Decidable (encoding.Marked bytes) :=
  inferInstanceAs (Decidable (encoding.opening <+: bytes))

theorem body_append (encoding : Encoding) (front back : List Char) :
    encoding.body (front ++ back) = encoding.body front ++ encoding.body back :=
  List.flatMap_append

theorem toNat_lt_unicode (c : Char) : c.toNat < 0x110000 := by
  rcases c.valid with low | ⟨-, high⟩
  · exact Nat.lt_trans low (by decide)
  · exact high

theorem covers_unicode (text : List Char) : utf8.Covers text ∧ signedUtf8.Covers text :=
  ⟨fun c _ => toNat_lt_unicode c, fun c _ => toNat_lt_unicode c⟩

theorem narrow_of_covers (covers : encoding.Covers text) :
    narrow encoding text = .ok (text.map fun c => UInt8.ofNat c.toNat) := by
  have first : text.takeWhile (fun c => c.toNat < encoding.limit) = text := by
    rw [List.takeWhile_eq_self_iff]
    simpa [Covers] using covers
  have behind : text.dropWhile (fun c => c.toNat < encoding.limit) = [] := by
    rw [List.dropWhile_eq_nil_iff]
    simpa [Covers] using covers
  rw [narrow, List.span_eq_takeWhile_dropWhile, first, behind]

theorem narrow_eq_ok_iff : narrow encoding text = .ok bytes ↔
    encoding.Covers text ∧ bytes = text.map fun c => UInt8.ofNat c.toNat := by
  constructor
  · exact narrow_eq_ok
  · rintro ⟨covers, rfl⟩
    exact narrow_of_covers covers

/-- The bytes of a text. -/
theorem encode_eq_ok_iff : encoding.encode text = .ok bytes ↔
    encoding.Covers text ∧ bytes = encoding.opening ++ encoding.body text := by
  have single (cs : List Char) : (cs.map fun c => UInt8.ofNat c.toNat) = cs.flatMap fun c => [UInt8.ofNat c.toNat] :=
    List.map_eq_flatMap
  cases encoding with
  | utf8 =>
    rw [and_iff_right (covers_unicode text).1]
    exact ⟨fun done => (Except.ok.inj done).symm, fun same => congrArg _ same.symm⟩
  | signedUtf8 =>
    rw [and_iff_right (covers_unicode text).2]
    exact ⟨fun done => (Except.ok.inj done).symm, fun same => congrArg _ same.symm⟩
  | latin1 => exact narrow_eq_ok_iff.trans (by rw [single]; rfl)
  | ascii => exact narrow_eq_ok_iff.trans (by rw [single]; rfl)

theorem covers_append {back : List Char} :
    encoding.Covers (text ++ back) ↔ encoding.Covers text ∧ encoding.Covers back := by
  simp [Covers, or_imp, forall_and]

/-- The characters that are read from bytes have bytes. -/
theorem covers_of_decode (read : encoding.decode bytes = .ok text) : encoding.Covers text := by
  have byte (b : UInt8) : (Char.ofNat b.toNat).toNat = b.toNat :=
    Text.Utf8.toNat_ofNat_of_valid (.inl (Nat.lt_trans b.toNat_lt (by decide)))
  cases encoding with
  | utf8 => exact (covers_unicode text).1
  | signedUtf8 => exact (covers_unicode text).2
  | latin1 =>
    cases read
    intro c member
    obtain ⟨b, -, rfl⟩ := List.mem_map.mp member
    rw [byte]
    exact b.toNat_lt
  | ascii =>
    rw [decode, List.span_eq_takeWhile_dropWhile] at read
    split at read
    · rename_i plain _ split_
      cases read
      obtain ⟨rfl, -⟩ := Prod.mk.inj split_
      intro c member
      obtain ⟨b, inside, rfl⟩ := List.mem_map.mp member
      have small := List.mem_takeWhile_imp inside
      rw [byte]
      exact of_decide_eq_true small
    · cases read

/-- Whether a text that was read is written back as the bytes that it was read from. -/
theorem encode_iff_marked (read : encoding.decode bytes = .ok text) :
    encoding.encode text = .ok bytes ↔ encoding.Marked bytes := by
  have back (b : UInt8) : UInt8.ofNat (Char.ofNat b.toNat).toNat = b := by
    rw [Text.Utf8.toNat_ofNat_of_valid (.inl (Nat.lt_trans b.toNat_lt (by decide)))]
    exact Text.Utf8.ofNat_toNat_of rfl
  rw [encode_eq_ok_iff, and_iff_right (covers_of_decode read)]
  unfold Marked
  cases encoding with
  | utf8 =>
    rw [decode, Disk.mapError_eq_ok] at read
    exact iff_of_true (Text.Utf8.encode_decode read).symm List.nil_prefix
  | signedUtf8 =>
    simp only [decode, Disk.mapError_eq_ok] at read
    have same := Text.Utf8.encode_decode read
    constructor
    · intro whole
      exact ⟨_, whole.symm⟩
    · intro marked
      rw [if_pos (List.isPrefixOf_iff_prefix.mpr (show mark <+: bytes from marked))] at same
      obtain ⟨rest, rfl⟩ := marked
      simp only [opening, List.drop_left] at same ⊢
      exact congrArg (mark ++ ·) same.symm
  | latin1 =>
    cases read
    refine iff_of_true ?_ List.nil_prefix
    simp [opening, body, charBytes, List.flatMap_map, back]
  | ascii =>
    rw [decode, List.span_eq_takeWhile_dropWhile] at read
    split at read
    · rename_i plain split_
      cases read
      obtain ⟨rfl, none⟩ := Prod.mk.inj split_
      have whole : bytes.takeWhile (fun b => b.toNat < 128) = bytes := by
        rw [List.takeWhile_eq_self_iff]
        exact List.dropWhile_eq_nil_iff.mp none
      rw [whole]
      refine iff_of_true ?_ List.nil_prefix
      simp [opening, body, charBytes, List.flatMap_map, back]
    · cases read

end Retouch.Files.Encoding
