import Retouch.Proofs.Files.Encoding
import Retouch.Proofs.Text.LineBreak

/-!
# Parts of a text in its bytes

A beginning or an end of the bytes of a text that is itself the bytes of a text is one of the text. So it can
be told from the texts whether the bytes of two of them agree outside a range. When a text is written with the
line breaks that it had before, they do just if what stands in front of the range and behind it had no others.

## Main statements

* `body_prefix_iff` and `body_suffix_iff`: beginnings and ends.
* `agreeOutside_iff`: whether the bytes of a text that is written are the old ones outside a range.
-/
namespace Retouch.Files

/-- The new bytes are the old ones in front of a range of them and behind it. -/
def AgreeOutside (start stop : Nat) (old new : Text.Bytes) : Prop :=
  ∃ middle, new = old.take start ++ middle ++ old.drop stop

namespace Encoding

variable {encoding : Encoding} {xs ys text : List Char} {c d : Char} {front rest more bytes : Text.Bytes}

theorem body_cons (encoding : Encoding) (c : Char) (cs : List Char) :
    encoding.body (c :: cs) = encoding.charBytes c ++ encoding.body cs :=
  List.flatMap_cons

/-- Whether a byte can be the first one of a character. -/
def Begins : Encoding → UInt8 → Prop
  | .utf8, b | .signedUtf8, b => Text.Utf8.tail? b = none
  | .latin1, _ | .ascii, _ => True

/-- Only the first byte of a character can be the first one of a character. -/
theorem charBytes_parts (encoding : Encoding) (c : Char) : ∃ b more, encoding.charBytes c = b :: more ∧
    encoding.Begins b ∧ ∀ byte ∈ more, ¬encoding.Begins byte := by
  cases encoding with
  | utf8 | signedUtf8 => exact Text.Utf8.encodeChar_parts c
  | latin1 | ascii => exact ⟨_, [], rfl, trivial, by simp⟩

/-- The first character of a text is found in its bytes. -/
theorem charBytes_append_inj (one : c.toNat < encoding.limit) (two : d.toNat < encoding.limit)
    (same : encoding.charBytes c ++ rest = encoding.charBytes d ++ more) : c = d ∧ rest = more := by
  have narrow (limit : encoding.limit ≤ 256) (same : UInt8.ofNat c.toNat :: rest = UInt8.ofNat d.toNat :: more) :
      c = d ∧ rest = more := by
    obtain ⟨byte, tails⟩ := List.cons.inj same
    have number := congrArg UInt8.toNat byte
    rw [Text.Utf8.toNat_ofNat _ (by omega), Text.Utf8.toNat_ofNat _ (by omega)] at number
    exact ⟨by rw [← Char.ofNat_toNat c, number, Char.ofNat_toNat], tails⟩
  cases encoding with
  | utf8 | signedUtf8 => exact Text.Utf8.encodeChar_append_inj same
  | latin1 | ascii => exact narrow (by decide) same

/-- A beginning of the bytes of a text. -/
theorem body_prefix_iff (covers : encoding.Covers xs) (covers' : encoding.Covers ys) :
    encoding.body xs <+: encoding.body ys ↔ xs <+: ys := by
  constructor
  · intro begins
    induction xs generalizing ys with
    | nil => exact List.nil_prefix
    | cons c xs ih =>
      obtain ⟨rest, same⟩ := begins
      rw [body_cons, List.append_assoc] at same
      cases ys with
      | nil =>
        have none : encoding.charBytes c = [] := (List.append_eq_nil_iff.mp same).1
        obtain ⟨b, more, bytes, -⟩ := encoding.charBytes_parts c
        rw [bytes] at none
        cases none
      | cons d ys =>
        rw [body_cons] at same
        obtain ⟨rfl, tails⟩ := charBytes_append_inj (covers c List.mem_cons_self) (covers' d List.mem_cons_self) same
        have later := ih (fun d member => covers d (List.mem_cons_of_mem _ member))
          (fun d member => covers' d (List.mem_cons_of_mem _ member)) ⟨rest, tails⟩
        exact List.cons_prefix_cons.mpr ⟨rfl, later⟩
  · rintro ⟨rest, rfl⟩
    rw [body_append]
    exact List.prefix_append _ _

/-- The bytes of a text do not begin within those of a character. -/
theorem not_cut (inside : encoding.charBytes c = front ++ rest) (start : front ≠ []) (stop : rest ≠ [])
    (begins : encoding.body ys = rest ++ more) : False := by
  obtain ⟨b, tail, bytes, -, follows⟩ := encoding.charBytes_parts c
  obtain ⟨x, front, rfl⟩ := List.exists_cons_of_ne_nil start
  obtain ⟨y, rest, rfl⟩ := List.exists_cons_of_ne_nil stop
  rw [bytes, List.cons_append] at inside
  have member : y ∈ tail := by
    rw [(List.cons.inj inside).2]
    simp
  cases ys with
  | nil => simp [body] at begins
  | cons d ys =>
    obtain ⟨b', tail', bytes', first, -⟩ := encoding.charBytes_parts d
    rw [body_cons, bytes', List.cons_append, List.cons_append] at begins
    exact follows y member ((List.cons.inj begins).1 ▸ first)

/-- An end of the bytes of a text. -/
theorem body_suffix_iff (covers : encoding.Covers xs) (covers' : encoding.Covers ys) :
    encoding.body ys <:+ encoding.body xs ↔ ys <:+ xs := by
  constructor
  · rintro ⟨front, same⟩
    induction xs generalizing front with
    | nil =>
      have none : encoding.body ys = [] := (List.append_eq_nil_iff.mp same).2
      have begins := (body_prefix_iff covers' covers).mp (none ▸ List.nil_prefix)
      exact List.prefix_nil.mp begins ▸ List.nil_suffix
    | cons c xs ih =>
      have later := fun front => ih (fun d member => covers d (List.mem_cons_of_mem _ member)) front
      by_cases whole : front = []
      · subst whole
        -- The bytes of the two texts are the same, and so are the texts.
        rw [List.nil_append] at same
        have one := (body_prefix_iff covers' covers).mp (same ▸ List.prefix_refl _)
        have two := (body_prefix_iff covers covers').mp (same ▸ List.prefix_refl _)
        exact one.eq_of_length (Nat.le_antisymm one.length_le two.length_le) ▸ List.suffix_refl _
      · rw [body_cons] at same
        rcases List.append_eq_append_iff.mp same.symm with ⟨behind, rfl, tails⟩ | ⟨behind, inside, tails⟩
        · exact (later behind tails.symm).trans (List.suffix_cons _ _)
        · by_cases none : behind = []
          · subst none
            rw [List.nil_append] at tails
            exact (later [] tails).trans (List.suffix_cons _ _)
          · exact (not_cut inside whole none tails).elim
  · rintro ⟨front, rfl⟩
    rw [body_append]
    exact List.suffix_append _ _

/-! ### Bytes that are written anew -/

/-- The offset in the bytes of a text where the text begins that stands behind an offset of it. -/
def place (encoding : Encoding) (bytes : Text.Bytes) (text : List Char) (offset : Nat) : Nat :=
  bytes.length - (encoding.body (text.drop offset)).length

/-- In front of the bytes of a text stands the mark of the encoding, or nothing. -/
theorem decode_parts (read : encoding.decode bytes = .ok text) :
    encoding.Marked bytes ∧ bytes = encoding.opening ++ encoding.body text ∨
      ¬encoding.Marked bytes ∧ encoding = .signedUtf8 ∧ bytes = encoding.body text := by
  by_cases marked : encoding.Marked bytes
  · exact .inl ⟨marked, (encode_eq_ok_iff.mp ((encode_iff_marked read).mpr marked)).2⟩
  · cases encoding with
    | signedUtf8 =>
      refine .inr ⟨marked, rfl, ?_⟩
      have unmarked : ¬mark.isPrefixOf bytes = true := fun begins => marked (List.isPrefixOf_iff_prefix.mp begins)
      simp only [decode, if_neg unmarked, Disk.mapError_eq_ok] at read
      exact (Text.Utf8.encode_decode read).symm
    | utf8 | latin1 | ascii => exact absurd List.nil_prefix marked

/-- The bytes of a text, cut at an offset of it. -/
theorem cut_place (text : List Char) (offset : Nat) (whole : bytes = front ++ encoding.body text) :
    bytes.take (encoding.place bytes text offset) = front ++ encoding.body (text.take offset) ∧
      bytes.drop (encoding.place bytes text offset) = encoding.body (text.drop offset) := by
  have split : (front ++ encoding.body (text.take offset)) ++ encoding.body (text.drop offset) = bytes := by
    rw [List.append_assoc, ← body_append, List.take_append_drop, whole]
  have size : encoding.place bytes text offset = (front ++ encoding.body (text.take offset)).length := by
    rw [place, ← split, List.length_append, List.length_append]
    omega
  rw [size, ← split]
  exact ⟨List.take_left, List.drop_left⟩

/-- What stands around some bytes are the bytes of two texts just if these stand around a text. -/
theorem body_around_iff (covers : encoding.Covers text) (covers₁ : encoding.Covers xs) (covers₂ : encoding.Covers ys) :
    (∃ middle, encoding.body text = encoding.body xs ++ middle ++ encoding.body ys) ↔
      ∃ inner, text = xs ++ inner ++ ys := by
  constructor
  · rintro ⟨middle, same⟩
    have begins : encoding.body xs <+: encoding.body text := by
      rw [same, List.append_assoc]
      exact List.prefix_append _ _
    obtain ⟨rest, rfl⟩ := (body_prefix_iff covers₁ covers).mp begins
    rw [body_append, List.append_assoc] at same
    have ends : encoding.body ys <:+ encoding.body rest := ⟨middle, (List.append_cancel_left same).symm⟩
    obtain ⟨inner, rfl⟩ := (body_suffix_iff (covers_append.mp covers).2 covers₂).mp ends
    exact ⟨inner, by rw [List.append_assoc]⟩
  · rintro ⟨inner, rfl⟩
    exact ⟨encoding.body inner, by rw [body_append, body_append]⟩

/-- Whether the bytes of a text that is written are the old ones outside a range of the old text: the text around
it must have had such line breaks, and no mark may come in front of it. -/
theorem agreeOutside_iff {kind : Text.LineBreak} {inner content : List Char} {start stop : Nat}
    (read : encoding.decode bytes = .ok text)
    (feeds : kind = .feed → Text.LineBreak.feed.Pure (text.take start) ∧ Text.LineBreak.feed.Pure (text.drop stop))
    (filled : inner ≠ []) (written : content = kind.apply (text.take start) ++ inner ++ kind.apply (text.drop stop))
    (encoded : encoding.encode content = .ok more) :
    AgreeOutside (encoding.place bytes text start) (encoding.place bytes text stop) bytes more ↔
      (kind.Pure (text.take start) ∧
        (kind.Pure (text.drop stop) ∨ ∃ rest, text.drop stop = '\n' :: rest ∧ kind.Pure rest)) ∧
        (encoding.Marked bytes ∨ text.take start = []) := by
  obtain ⟨covers, rfl⟩ := encode_eq_ok_iff.mp encoded
  have covers' := covers_of_decode read
  have front : encoding.Covers (text.take start) := fun c member => covers' c (List.mem_of_mem_take member)
  have behind : encoding.Covers (text.drop stop) := fun c member => covers' c (List.mem_of_mem_drop member)
  rw [← Text.LineBreak.around_apply_iff feeds inner, ← written]
  unfold AgreeOutside
  rcases decode_parts read with ⟨marked, whole⟩ | ⟨unmarked, rfl, whole⟩
  · rw [(cut_place text start whole).1, (cut_place text stop whole).2, ← body_around_iff covers front behind]
    simp only [marked, true_or, and_true, List.append_assoc, List.append_cancel_left_eq]
  · -- The mark that comes in front is that of a character, which the text did not begin with.
    have sign : signedUtf8.opening = signedUtf8.body ['\ufeff'] := by decide
    have whole' : bytes = [] ++ signedUtf8.body text := whole
    rw [(cut_place text start whole').1, (cut_place text stop whole').2, List.nil_append, sign, ← body_append,
      body_around_iff (covers_unicode _).2 front behind]
    simp only [unmarked, false_or]
    constructor
    · rintro ⟨middle, same⟩
      have none : text.take start = [] := by
        cases begins : text.take start with
        | nil => rfl
        | cons c rest =>
          rw [begins] at same
          obtain ⟨rfl, -⟩ := List.cons.inj same
          refine absurd ?_ unmarked
          rw [Marked, whole, sign]
          refine (body_prefix_iff (covers_unicode _).2 (covers_unicode _).2).mpr ?_
          rw [← List.take_append_drop start text, begins]
          exact ⟨rest ++ text.drop start, rfl⟩
      refine ⟨?_, none⟩
      rw [none] at same written ⊢
      cases middle with
      | nil =>
        -- The text behind would be longer than the new text, which it is a part of.
        have longer := Text.LineBreak.length_le_apply fun feed => (feeds feed).2
        have sizes := congrArg List.length same
        have parts := congrArg List.length written
        simp only [List.length_cons, List.length_append, List.length_nil] at sizes parts
        have some_ := List.length_pos_iff.mpr filled
        omega
      | cons c middle => exact ⟨middle, (List.cons.inj same).2⟩
    · rintro ⟨⟨middle, same⟩, none⟩
      rw [none] at same ⊢
      exact ⟨'\ufeff' :: middle, by rw [same]; rfl⟩

end Encoding

end Retouch.Files
