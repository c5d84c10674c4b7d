import Retouch.Json.Writer
import Retouch.Proofs.Json.Integer
import Retouch.Proofs.Text.Blank
import Mathlib.Data.List.Basic

/-!
# Values that are written over several lines and read again

A text is written in plain characters, the others as escapes of their units, and a reader that follows the
escapes comes to the same text. From this the values follow, item by item: the reader passes the line breaks
and indents between them, and of a member it asks that no other one of the object has its name.

## Main statements

* `stringFrom_written`: a string that was written is read as it was.
* `readChars_writeIndented`: a value without numbers that does not nest too deep is read as it was written.
-/
namespace Retouch.Json

/-! ### Escapes -/

private theorem hexValue?_digit : ∀ d < 16, Text.hexValue? (Nat.digitChar d) = some d := by decide

/-- The last digit of a number with leading zeros. -/
theorem hexChars_succ (width n : Nat) :
    Text.hexChars (width + 2) n = Text.hexChars (width + 1) (n / 16) ++ [Nat.digitChar (n % 16)] := by
  unfold Text.hexChars
  by_cases one : n < 16
  · have none : n / 16 = 0 := Nat.div_eq_of_lt one
    have zero : Nat.toDigits 16 0 = ['0'] := Nat.toDigits_of_lt_base (by decide)
    have front : List.replicate (width + 1) '0' = List.replicate width '0' ++ ['0'] := List.replicate_succ'
    simp [Nat.toDigits_of_lt_base one, none, zero, Nat.mod_eq_of_lt one, front]
  · dsimp only
    rw [Nat.toDigits_of_base_le (by decide) (by omega), List.length_append, List.length_singleton,
      Nat.add_sub_add_right (width + 1) 1, List.append_assoc]

theorem hexChars_four {n : Nat} (small : n < 0x10000) :
    Text.hexChars 4 n = [Nat.digitChar (n / 16 / 16 / 16), Nat.digitChar (n / 16 / 16 % 16),
      Nat.digitChar (n / 16 % 16), Nat.digitChar (n % 16)] := by
  have one : Text.hexChars 1 (n / 16 / 16 / 16) = [Nat.digitChar (n / 16 / 16 / 16)] := by
    unfold Text.hexChars
    rw [Nat.toDigits_of_lt_base (by omega)]
    rfl
  rw [hexChars_succ, hexChars_succ, hexChars_succ, one]
  rfl

theorem unit?_hexChars {n : Nat} (small : n < 0x10000) (rest : List Char) :
    unit? (Text.hexChars 4 n ++ rest) = some (n, rest) := by
  rw [hexChars_four small]
  simp only [List.cons_append, List.nil_append, unit?, hexValue?_digit _ (show n / 16 / 16 / 16 < 16 by omega),
    hexValue?_digit _ (show n / 16 / 16 % 16 < 16 by omega), hexValue?_digit _ (show n / 16 % 16 < 16 by omega),
    hexValue?_digit _ (show n % 16 < 16 by omega), Option.some.injEq, Prod.mk.injEq, and_true]
  omega

/-! ### Strings -/

variable {start rest : List Char} {fuel : Nat}

theorem drop_hexChars {n : Nat} (small : n < 0x10000) (rest : List Char) :
    (Text.hexChars 4 n ++ rest).drop 4 = rest := by
  rw [hexChars_four small]
  rfl

/-- An escape with a unit that is no half of a pair. -/
theorem stringFrom_unit {n : Nat} (small : n < 0x10000) (whole : ¬(0xd800 ≤ n ∧ n < 0xe000))
    (read : List Char) (more : rest ≠ []) :
    stringFrom start (fuel + 1) read (unitEscape n ++ rest) =
      stringFrom start fuel (Char.ofNat n :: read) rest := by
  have long : ((Text.hexChars 4 n ++ rest).drop 4).isEmpty = false := by
    rw [drop_hexChars small]
    simpa using more
  have alone : ¬(0xd800 ≤ n ∧ n < 0xdc00) := by omega
  simp only [unitEscape, List.cons_append, stringFrom, long, unit?_hexChars small, Bool.false_eq_true, if_false,
    if_neg alone, unitChar, if_neg whole]

/-- The escapes of the two halves of a pair. -/
theorem stringFrom_pair {n : Nat} (small : n < 0x100000) (read : List Char) (more : rest ≠ []) :
    stringFrom start (fuel + 1) read
        (unitEscape (0xd800 + n / 0x400) ++ (unitEscape (0xdc00 + n % 0x400) ++ rest)) =
      stringFrom start fuel (Char.ofNat (0x10000 + n) :: read) rest := by
  have high : 0xd800 + n / 0x400 < 0x10000 := by omega
  have low : 0xdc00 + n % 0x400 < 0x10000 := by omega
  have long (tail : List Char) :
      ((Text.hexChars 4 (0xd800 + n / 0x400) ++ '\\' :: tail).drop 4).isEmpty = false := by
    rw [drop_hexChars high]
    rfl
  have long' : ((Text.hexChars 4 (0xdc00 + n % 0x400) ++ rest).drop 4).isEmpty = false := by
    rw [drop_hexChars low]
    simpa using more
  have first : 0xd800 ≤ 0xd800 + n / 0x400 ∧ 0xd800 + n / 0x400 < 0xdc00 := by omega
  have second : 0xdc00 ≤ 0xdc00 + n % 0x400 ∧ 0xdc00 + n % 0x400 < 0xe000 := by omega
  have code : 0x10000 + (0xd800 + n / 0x400 - 0xd800) * 0x400 + (0xdc00 + n % 0x400 - 0xdc00) = 0x10000 + n := by
    omega
  simp only [unitEscape, List.cons_append, stringFrom, long, unit?_hexChars high, Bool.false_eq_true, if_false,
    if_pos first, lowUnit?, long', unit?_hexChars low, if_pos second, code]

/-- A character that was written is read as it was. -/
theorem stringFrom_writeChar (c : Char) (read : List Char) (more : rest ≠ []) :
    stringFrom start (fuel + 1) read (writeChar c ++ rest) = stringFrom start fuel (c :: read) rest := by
  have back : Char.ofNat c.toNat = c := Char.ofNat_toNat c
  have valid : c.toNat < 0xd800 ∨ (0xdfff < c.toNat ∧ c.toNat < 0x110000) := c.valid
  have named {d : Char} {code : Nat} (same : c.toNat = code) (other : d = Char.ofNat code) : c = d := by
    rw [other, ← same, back]
  unfold writeChar
  split_ifs with quote slash feed carriage tab form space plain basic
  · subst quote
    rfl
  · subst slash
    rfl
  · subst feed
    rfl
  · subst carriage
    rfl
  · subst tab
    rfl
  · obtain rfl := named form rfl
    rfl
  · obtain rfl := named space rfl
    rfl
  · have shown : ¬c.toNat < 32 := by omega
    simp only [List.cons_append, List.nil_append]
    rw [stringFrom]
    · simp only [if_neg shown]
    · exact quote
    · exact slash
  · rw [stringFrom_unit basic (by omega) read more, back]
  · dsimp only
    have code : 0x10000 + (c.toNat - 0x10000) = c.toNat := by omega
    rw [List.append_assoc, stringFrom_pair (by omega) read more, code, back]

/-- A string that was written is read as it was. -/
theorem stringFrom_written (s read : List Char) (enough : s.length < fuel) :
    stringFrom start fuel read (s.flatMap writeChar ++ '"' :: rest) =
      .ok (String.ofList (read.reverse ++ s), rest) := by
  induction s generalizing fuel read with
  | nil =>
    obtain ⟨fuel, rfl⟩ := Nat.exists_eq_succ_of_ne_zero (Nat.ne_zero_of_lt enough)
    simp [stringFrom]
  | cons c s ih =>
    obtain ⟨fuel, rfl⟩ := Nat.exists_eq_succ_of_ne_zero (Nat.ne_zero_of_lt enough)
    rw [List.flatMap_cons, List.append_assoc, stringFrom_writeChar c read (by simp),
      ih (c :: read) (by simpa using enough)]
    simp

/-! ### Values -/

/-- A value that can be read with so many levels to spare: it has no numbers but integers that are not too long. -/
inductive Readable : Nat → Json → Prop where
  | null {depth : Nat} : Readable depth .null
  | bool {depth : Nat} (b : Bool) : Readable depth (.bool b)
  | int {depth : Nat} {n : Int} (short : (Nat.toDigits 10 n.natAbs).length ≤ integerDigits) :
      Readable depth (.int n)
  | str {depth : Nat} (s : String) : Readable depth (.str s)
  | arr {depth : Nat} {items : List Json} (each : ∀ item ∈ items, Readable depth item) :
      Readable (depth + 1) (.arr items)
  | obj {depth : Nat} {members : Members} (names : (members.map Prod.fst).Nodup)
      (each : ∀ member ∈ members, Readable depth member.2) : Readable (depth + 1) (.obj members)

variable {depth indent : Nat} {v : Json}

/-- More levels do no harm. -/
theorem Readable.mono {other : Nat} (readable : Readable depth v) (more : depth ≤ other) : Readable other v := by
  induction readable generalizing other with
  | null => exact .null
  | bool b => exact .bool b
  | int short => exact .int short
  | str s => exact .str s
  | arr each ih =>
    obtain ⟨other, rfl⟩ := Nat.exists_eq_succ_of_ne_zero (Nat.ne_zero_of_lt more)
    exact .arr fun item member => ih item member (Nat.le_of_succ_le_succ more)
  | obj names each ih =>
    obtain ⟨other, rfl⟩ := Nat.exists_eq_succ_of_ne_zero (Nat.ne_zero_of_lt more)
    exact .obj names fun item member => ih item member (Nat.le_of_succ_le_succ more)

theorem writeString_toList (s : String) :
    (writeString s).toList = '"' :: (s.toList.flatMap writeChar ++ ['"']) := by
  simp [writeString]

/-- The characters that values begin with. -/
def headChars : List Char := ['n', 't', 'f', '"', '[', '\x7b'] ++ figures

/-- Blanks between the parts of a value. -/
def Gap (gap : List Char) : Prop := ∀ c ∈ gap, isSpace c = true

theorem skipSpace_gap {gap : List Char} (blank : Gap gap) {c : Char} (solid : isSpace c = false) (more : List Char) :
    skipSpace (gap ++ c :: more) = c :: more := by
  rw [skipSpace, List.dropWhile_append_of_pos blank, List.dropWhile_cons_of_neg (by simp [solid])]

theorem skipSpace_solid {c : Char} (solid : isSpace c = false) (more : List Char) :
    skipSpace (c :: more) = c :: more := by
  rw [skipSpace, List.dropWhile_cons_of_neg (by simp [solid])]

/-- A gap and what closes a list stand behind a number. -/
theorem closed_gap {gap : List Char} (blank : Gap gap) {c : Char}
    (plain : c.isDigit = false ∧ c ≠ '.' ∧ c ≠ 'e' ∧ c ≠ 'E') (more : List Char) : Closed (gap ++ c :: more) := by
  cases gap with
  | nil => exact closed_cons plain more
  | cons space gap =>
    have blank' := blank space List.mem_cons_self
    simp only [isSpace, Bool.or_eq_true, decide_eq_true_eq] at blank'
    refine closed_cons ?_ _
    rcases blank' with ((rfl | rfl) | rfl) | rfl <;> decide

theorem solid_of_head {c : Char} (head : c ∈ headChars) : isSpace c = false ∧ c ≠ ']' ∧ c ≠ '\x7d' := by
  have all : headChars.all (fun c => !isSpace c && c != ']' && c != '\x7d') = true := by decide
  simpa [and_assoc] using List.all_eq_true.mp all c head

theorem writeChar_ne_nil (c : Char) : writeChar c ≠ [] := by
  unfold writeChar
  split_ifs <;> exact List.cons_ne_nil _ _

theorem length_flatMap_writeChar (s : List Char) : s.length ≤ (s.flatMap writeChar).length := by
  induction s with
  | nil => exact Nat.le_refl _
  | cons c s ih =>
    have one := List.length_pos_iff.mpr (writeChar_ne_nil c)
    rw [List.flatMap_cons, List.length_append, List.length_cons]
    omega

theorem intercalate_cons {α : Type} (between first : List α) (others : List (List α)) :
    ∃ more, between.intercalate (first :: others) = first ++ more := by
  cases others with
  | nil => exact ⟨[], by simp⟩
  | cons next others => exact ⟨_, by rw [List.intercalate_cons_of_ne_nil (by simp), List.append_assoc]⟩

/-- The text is read as the item wherever it stands, and it begins like a value. -/
structure Reads (depth : Nat) (text : List Char) (item : Json) : Prop where
  read : ∀ fuel rest, Closed rest → 2 * (text ++ rest).length < fuel →
    value depth fuel (text ++ rest) = .ok (item, rest)
  head : ∃ c more, text = c :: more ∧ c ∈ headChars

/-! ### Single values -/

theorem reads_null (depth : Nat) : Reads depth "null".toList .null := by
  refine ⟨fun fuel rest _ enough => ?_, 'n', "ull".toList, by decide, by decide⟩
  obtain ⟨fuel, rfl⟩ := Nat.exists_eq_succ_of_ne_zero (Nat.ne_zero_of_lt enough)
  simp [value, word?]

theorem reads_true (depth : Nat) : Reads depth "true".toList (.bool true) := by
  refine ⟨fun fuel rest _ enough => ?_, 't', "rue".toList, by decide, by decide⟩
  obtain ⟨fuel, rfl⟩ := Nat.exists_eq_succ_of_ne_zero (Nat.ne_zero_of_lt enough)
  simp [value, word?, List.find?, List.isPrefixOf]

theorem reads_false (depth : Nat) : Reads depth "false".toList (.bool false) := by
  refine ⟨fun fuel rest _ enough => ?_, 'f', "alse".toList, by decide, by decide⟩
  obtain ⟨fuel, rfl⟩ := Nat.exists_eq_succ_of_ne_zero (Nat.ne_zero_of_lt enough)
  simp [value, word?, List.find?, List.isPrefixOf]

theorem reads_string (depth : Nat) (s : String) : Reads depth (writeString s).toList (.str s) := by
  refine ⟨fun fuel rest _ enough => ?_, '"', _, writeString_toList s, by decide⟩
  obtain ⟨fuel, rfl⟩ := Nat.exists_eq_succ_of_ne_zero (Nat.ne_zero_of_lt enough)
  have short := length_flatMap_writeChar s.toList
  rw [writeString_toList, List.cons_append, List.append_assoc, List.singleton_append] at enough ⊢
  simp only [List.length_append, List.length_cons] at enough
  rw [value, stringFrom_written s.toList [] (by omega)]
  simp only [bind, Except.bind, pure, Except.pure, List.reverse_nil, List.nil_append, String.ofList_toList]

theorem reads_int (depth : Nat) {n : Int} (short : (Nat.toDigits 10 n.natAbs).length ≤ integerDigits) :
    Reads depth (toString n).toList (.int n) := by
  obtain ⟨c, more, text, head⟩ := head_written n
  refine ⟨fun fuel rest closed enough => ?_, c, more, text, List.mem_append_right ['n', 't', 'f', '"', '[', '\x7b'] head⟩
  obtain ⟨fuel, rfl⟩ := Nat.exists_eq_succ_of_ne_zero (Nat.ne_zero_of_lt enough)
  have read := number_written short closed
  have wordless : word? ((toString n).toList ++ rest) = none := word?_written n
  rw [text, List.cons_append] at read wordless ⊢
  -- An integer is neither a string nor a list.
  have plain : figures.all (fun c => c != '"' && c != '\x7b' && c != '[') = true := by decide
  obtain ⟨⟨quote, brace⟩, bracket⟩ : (c ≠ '"' ∧ c ≠ '\x7b') ∧ c ≠ '[' := by
    simpa using List.all_eq_true.mp plain c head
  rw [value]
  · rw [wordless]
    exact read
  · intro behind same
    exact quote (List.cons.inj same).1
  · intro behind same
    exact brace (List.cons.inj same).1
  · intro behind same
    exact bracket (List.cons.inj same).1

/-! ### Lists of values -/

/-- What stands between two items. -/
def border (gap : List Char) : List Char := ',' :: gap

theorem closed_border (gap more : List Char) : Closed (border gap ++ more) := closed_cons (by decide) _

section lists

variable {gap before behind : List Char} {text : Json → List Char}

/-- The items of an array are read one after the other. -/
theorem items_written {tail : List Char} (ready : skipSpace tail = ']' :: rest) (closed : Closed tail)
    (blank : Gap gap) (item : Json) (items : List Json)
    (each : ∀ item' ∈ item :: items, Reads depth (text item') item') (found : List Json) (fuel : Nat)
    (enough : 2 * ((border gap).intercalate ((item :: items).map text) ++ tail).length + 1 < fuel) :
    Json.items depth fuel found ((border gap).intercalate ((item :: items).map text) ++ tail) =
      .ok (.arr (found.reverse ++ item :: items), rest) := by
  induction items generalizing item found fuel with
  | nil =>
    obtain ⟨fuel, rfl⟩ := Nat.exists_eq_succ_of_ne_zero (Nat.ne_zero_of_lt enough)
    simp only [List.map_cons, List.map_nil, List.intercalate_singleton] at enough ⊢
    rw [Json.items, (each item (by simp)).read fuel tail closed (by omega)]
    simp only [bind, Except.bind, ready, List.reverse_cons]
  | cons next items ih =>
    obtain ⟨fuel, rfl⟩ := Nat.exists_eq_succ_of_ne_zero (Nat.ne_zero_of_lt enough)
    rw [List.forall_mem_cons] at each
    have more := ih next each.2 (item :: found) fuel
    rw [List.map_cons, List.intercalate_cons_of_ne_nil (by simp)] at enough ⊢
    -- Behind the comma the next item begins, whatever the gap.
    obtain ⟨c, front, begins, solid⟩ := (each.2 next (by simp)).head
    obtain ⟨back, whole⟩ := intercalate_cons (border gap) (text next) (items.map text)
    have whole := whole.trans (congrArg (· ++ back) begins)
    rw [List.cons_append] at whole
    simp only [List.map_cons] at more enough ⊢
    rw [List.append_assoc, List.append_assoc] at enough ⊢
    rw [Json.items, each.1.read fuel _ (closed_border gap _) (by omega)]
    rw [whole] at more enough ⊢
    simp only [border, List.cons_append, List.length_append, List.length_cons] at more enough ⊢
    simp only [bind, Except.bind, skipSpace_solid (show isSpace ',' = false by decide),
      skipSpace_gap blank (solid_of_head solid).1]
    rw [more (by omega)]
    simp

theorem insert_new {members : Members} {name : String} (new : name ∉ members.map Prod.fst) (item : Json) :
    members.insert name item = members ++ [(name, item)] := by
  induction members with
  | nil => rfl
  | cons member members ih =>
    simp only [List.map_cons, List.mem_cons, not_or] at new
    have other : (member.1 == name) = false := by simpa using fun same => new.1 same.symm
    rw [Members.insert, other, if_neg Bool.false_ne_true, ih new.2, List.cons_append]

/-- The name of a member, and what its value is written as. -/
def memberText (text : Json → List Char) (member : String × Json) : List Char :=
  '"' :: (member.1.toList.flatMap writeChar ++ '"' :: ':' :: ' ' :: text member.2)

/-- A member is read, and then what stands behind it is looked at. -/
theorem members_member {member : String × Json} (reads : Reads depth (text member.2) member.2) {found : Members}
    (closed : Closed rest) (new : member.1 ∉ found.map Prod.fst) {fuel : Nat}
    (enough : 2 * (memberText text member ++ rest).length < fuel) :
    Json.members depth (fuel + 1) found (memberText text member ++ rest) =
      match skipSpace rest with
      | '\x7d' :: rest => .ok (.obj (found ++ [member]), rest)
      | ',' :: rest => Json.members depth fuel (found ++ [member]) (skipSpace rest)
      | rest => missed .expectingComma rest := by
  obtain ⟨name, item⟩ := member
  obtain ⟨c, more, begins, solid⟩ := reads.head
  have read := reads.read fuel rest closed
  have short := length_flatMap_writeChar name.toList
  dsimp only at begins read new
  unfold memberText at enough ⊢
  simp only [List.append_assoc, List.cons_append, begins, List.length_append, List.length_cons] at enough read ⊢
  rw [Json.members, stringFrom_written name.toList [] (by omega)]
  simp only [bind, Except.bind, skipSpace_solid (show isSpace ':' = false by decide)]
  have space : skipSpace (' ' :: c :: (more ++ rest)) = c :: (more ++ rest) := by
    rw [skipSpace, List.dropWhile_cons_of_pos (by decide)]
    exact skipSpace_solid (solid_of_head solid).1 _
  have inserted : found.insert (String.ofList ([].reverse ++ name.toList)) item = found ++ [(name, item)] := by
    rw [List.reverse_nil, List.nil_append, String.ofList_toList, insert_new new]
  rw [space, read (by omega)]
  exact inserted ▸ rfl

theorem new_of_nodup {found members : Members} {member : String × Json}
    (names : ((found ++ member :: members).map Prod.fst).Nodup) : member.1 ∉ found.map Prod.fst := by
  rw [List.map_append, List.map_cons] at names
  exact fun known => (List.nodup_append.mp names).2.2 _ known _ (by simp) rfl

/-- The members of an object are read one after the other. -/
theorem members_written {tail : List Char} (ready : skipSpace tail = '\x7d' :: rest) (closed : Closed tail)
    (blank : Gap gap) (member : String × Json) (members : Members)
    (each : ∀ member' ∈ member :: members, Reads depth (text member'.2) member'.2) (found : Members)
    (names : ((found ++ member :: members).map Prod.fst).Nodup) (fuel : Nat)
    (enough : 2 * ((border gap).intercalate ((member :: members).map (memberText text)) ++ tail).length + 1 < fuel) :
    Json.members depth fuel found ((border gap).intercalate ((member :: members).map (memberText text)) ++ tail) =
      .ok (.obj (found ++ member :: members), rest) := by
  induction members generalizing member found fuel with
  | nil =>
    obtain ⟨fuel, rfl⟩ := Nat.exists_eq_succ_of_ne_zero (Nat.ne_zero_of_lt enough)
    simp only [List.map_cons, List.map_nil, List.intercalate_singleton] at enough ⊢
    rw [members_member (each member (by simp)) closed (new_of_nodup names) (by omega)]
    simp only [ready]
  | cons next members ih =>
    obtain ⟨fuel, rfl⟩ := Nat.exists_eq_succ_of_ne_zero (Nat.ne_zero_of_lt enough)
    rw [List.forall_mem_cons] at each
    have more := ih next each.2 (found ++ [member]) (by simpa using names) fuel
    rw [List.map_cons, List.intercalate_cons_of_ne_nil (by simp)] at enough ⊢
    -- Behind the comma the next name begins, whatever the gap.
    obtain ⟨back, whole⟩ := intercalate_cons (border gap) (memberText text next) (members.map (memberText text))
    have begins : memberText text next = '"' :: (next.1.toList.flatMap writeChar ++ '"' :: ':' :: ' ' :: text next.2) :=
      rfl
    have whole := whole.trans (congrArg (· ++ back) begins)
    rw [List.cons_append] at whole
    simp only [List.map_cons] at more enough ⊢
    rw [List.append_assoc, List.append_assoc] at enough ⊢
    rw [members_member each.1 (closed_border gap _) (new_of_nodup names) (by omega)]
    rw [whole] at more enough ⊢
    simp only [border, List.cons_append, List.length_append, List.length_cons] at more enough ⊢
    simp only [skipSpace_solid (show isSpace ',' = false by decide),
      skipSpace_gap blank (show isSpace '"' = false by decide)]
    rw [more (by omega)]
    simp

theorem value_array {c : Char} (begins : c ∈ headChars) (blank : Gap before) (fuel : Nat) (more : List Char) :
    value (depth + 1) (fuel + 1) ('[' :: (before ++ c :: more)) = items depth fuel [] (c :: more) := by
  obtain ⟨solid, other, -⟩ := solid_of_head begins
  simp only [value, Nat.add_eq_zero_iff, Nat.succ_ne_self, and_false, if_false, skipSpace_gap blank solid,
    Nat.add_sub_cancel]
  split
  · rename_i same
    exact absurd (List.cons.inj same).1 other
  · rfl

theorem value_object (blank : Gap before) (fuel : Nat) (more : List Char) :
    value (depth + 1) (fuel + 1) ('\x7b' :: (before ++ '"' :: more)) = members depth fuel [] ('"' :: more) := by
  simp only [value, Nat.add_eq_zero_iff, Nat.succ_ne_self, and_false, if_false,
    skipSpace_gap blank (show isSpace '"' = false by decide), Nat.add_sub_cancel]
  rfl

/-- Items between brackets are read as an array. -/
theorem reads_array (blank : Gap gap) (blank' : Gap before) (blank'' : Gap behind) (item : Json) (items : List Json)
    (each : ∀ item' ∈ item :: items, Reads depth (text item') item') :
    Reads (depth + 1) ('[' :: (before ++ ((border gap).intercalate ((item :: items).map text) ++ (behind ++ [']']))))
      (.arr (item :: items)) := by
  refine ⟨fun fuel rest _ enough => ?_, '[', _, rfl, by decide⟩
  obtain ⟨fuel, rfl⟩ := Nat.exists_eq_succ_of_ne_zero (Nat.ne_zero_of_lt enough)
  have read := items_written (skipSpace_gap blank'' (show isSpace ']' = false by decide) rest)
    (closed_gap blank'' (by decide) rest) blank item items each [] fuel
  obtain ⟨c, front, begins, solid⟩ := (each item (by simp)).head
  obtain ⟨back, whole⟩ := intercalate_cons (border gap) (text item) (items.map text)
  have whole := whole.trans (congrArg (· ++ back) begins)
  simp only [List.map_cons] at enough read ⊢
  rw [whole] at enough read ⊢
  simp only [List.cons_append, List.append_assoc, List.nil_append, List.length_append, List.length_cons] at enough read ⊢
  rw [value_array solid blank']
  exact read (by omega)

/-- Members between braces are read as an object. -/
theorem reads_object (blank : Gap gap) (blank' : Gap before) (blank'' : Gap behind) (member : String × Json)
    (members : Members) (names : ((member :: members).map Prod.fst).Nodup)
    (each : ∀ member' ∈ member :: members, Reads depth (text member'.2) member'.2) :
    Reads (depth + 1) ('\x7b' :: (before ++ ((border gap).intercalate ((member :: members).map (memberText text)) ++
      (behind ++ ['\x7d'])))) (.obj (member :: members)) := by
  refine ⟨fun fuel rest _ enough => ?_, '\x7b', _, rfl, by decide⟩
  obtain ⟨fuel, rfl⟩ := Nat.exists_eq_succ_of_ne_zero (Nat.ne_zero_of_lt enough)
  have read := members_written (skipSpace_gap blank'' (show isSpace '\x7d' = false by decide) rest)
    (closed_gap blank'' (by decide) rest) blank member members each [] names fuel
  obtain ⟨back, whole⟩ := intercalate_cons (border gap) (memberText text member) (members.map (memberText text))
  have begins : memberText text member =
      '"' :: (member.1.toList.flatMap writeChar ++ '"' :: ':' :: ' ' :: text member.2) := rfl
  have whole := whole.trans (congrArg (· ++ back) begins)
  simp only [List.map_cons] at enough read ⊢
  rw [whole] at enough read ⊢
  simp only [List.cons_append, List.append_assoc, List.nil_append, List.length_append, List.length_cons] at enough read ⊢
  rw [value_object blank']
  exact read (by omega)

theorem reads_empty (depth : Nat) : Reads (depth + 1) "[]".toList (.arr []) ∧
    Reads (depth + 1) "\x7b\x7d".toList (.obj []) := by
  refine ⟨⟨fun fuel rest _ enough => ?_, '[', [']'], rfl, by decide⟩,
    ⟨fun fuel rest _ enough => ?_, '\x7b', ['\x7d'], rfl, by decide⟩⟩ <;>
  · obtain ⟨fuel, rfl⟩ := Nat.exists_eq_succ_of_ne_zero (Nat.ne_zero_of_lt enough)
    simp [value, skipSpace, isSpace]

end lists

/-! ### Values over several lines -/

theorem lineBreak_toList (indent : Nat) :
    (lineBreak indent).toList = '\n' :: List.replicate (2 * indent) ' ' := by
  simp [lineBreak]

theorem gap_lineBreak (indent : Nat) : Gap (lineBreak indent).toList := by
  unfold Gap
  simp [lineBreak_toList, isSpace]

theorem writeIndentedItems_eq (indent : Nat) (items : List Json) :
    writeIndentedItems indent items = items.map (writeIndented indent) := by
  induction items with
  | nil => rfl
  | cons item rest ih => rw [writeIndentedItems, ih, List.map_cons]

theorem writeIndentedMembers_eq (indent : Nat) (members : Members) :
    writeIndentedMembers indent members = members.map (writeIndentedMember indent) := by
  induction members with
  | nil => rfl
  | cons member rest ih => rw [writeIndentedMembers, ih, List.map_cons]

theorem writeIndentedMember_toList (indent : Nat) (member : String × Json) :
    (writeIndentedMember indent member).toList = memberText (fun item => (writeIndented indent item).toList) member := by
  obtain ⟨name, item⟩ := member
  simp [writeIndentedMember, writeString_toList, memberText]

theorem bracketed_toList (opening closing : String) (line : Nat) (text : String) (texts : List String) :
    (bracketed opening closing line (text :: texts)).toList =
      opening.toList ++ ((lineBreak (line + 1)).toList ++ ((border (lineBreak (line + 1)).toList).intercalate
        ((text :: texts).map String.toList) ++ ((lineBreak line).toList ++ closing.toList))) := by
  have comma : ("," ++ lineBreak (line + 1)).toList = border (lineBreak (line + 1)).toList := by simp [border]
  simp only [bracketed, String.toList_append, String.toList_intercalate, comma, List.append_assoc]

/-- A value that does not nest too deep is read where it was written over several lines. -/
theorem reads_writeIndented (readable : Readable depth v) (indent : Nat) :
    Reads depth (writeIndented indent v).toList v := by
  induction readable generalizing indent with
  | null =>
    rw [writeIndented]
    exact reads_null _
  | bool b =>
    cases b with
    | true =>
      rw [writeIndented]
      exact reads_true _
    | false =>
      rw [writeIndented]
      exact reads_false _
  | int short =>
    rw [writeIndented]
    exact reads_int _ short
  | str s =>
    rw [writeIndented]
    exact reads_string _ s
  | @arr depth items each ih =>
    rw [writeIndented, writeIndentedItems_eq]
    cases items with
    | nil => exact (reads_empty depth).1
    | cons item items =>
      rw [List.map_cons, bracketed_toList, ← List.map_cons, List.map_map]
      exact reads_array (gap_lineBreak _) (gap_lineBreak _) (gap_lineBreak _) item items
        fun item' member => ih item' member _
  | @obj depth members names each ih =>
    rw [writeIndented, writeIndentedMembers_eq]
    cases members with
    | nil => exact (reads_empty depth).2
    | cons member members =>
      have texts : String.toList ∘ writeIndentedMember (indent + 1) =
          memberText fun item => (writeIndented (indent + 1) item).toList :=
        funext (writeIndentedMember_toList (indent + 1))
      rw [List.map_cons, bracketed_toList, ← List.map_cons, List.map_map, texts]
      exact reads_object (gap_lineBreak _) (gap_lineBreak _) (gap_lineBreak _) member members names
        fun member' inside => ih member' inside _

/-! ### Values on one line -/

theorem writeItems_eq (comma colon : String) (items : List Json) :
    writeItems comma colon items = items.map (writeWith comma colon) := by
  induction items with
  | nil => rfl
  | cons item rest ih => rw [writeItems, ih, List.map_cons]

theorem writeMembers_eq (comma colon : String) (members : Members) :
    writeMembers comma colon members = members.map (writeMember comma colon) := by
  induction members with
  | nil => rfl
  | cons member rest ih => rw [writeMembers, ih, List.map_cons]

theorem writeMember_toList (member : String × Json) :
    (writeMember ", " ": " member).toList = memberText (fun item => item.write.toList) member := by
  obtain ⟨name, item⟩ := member
  simp [writeMember, writeString_toList, memberText, write]

/-- A value that does not nest too deep is read where it was written on one line. -/
theorem reads_write (readable : Readable depth v) : Reads depth v.write.toList v := by
  have blank : Gap [] := fun c member => absurd member List.not_mem_nil
  have space : Gap [' '] := by
    intro c member
    rw [List.mem_singleton.mp member]
    decide
  have comma : ", ".toList = border [' '] := rfl
  induction readable with
  | null =>
    rw [write, writeWith]
    exact reads_null _
  | bool b =>
    cases b with
    | true =>
      rw [write, writeWith]
      exact reads_true _
    | false =>
      rw [write, writeWith]
      exact reads_false _
  | int short =>
    rw [write, writeWith]
    exact reads_int _ short
  | str s =>
    rw [write, writeWith]
    exact reads_string _ s
  | @arr depth items each ih =>
    rw [write, writeWith, writeItems_eq]
    cases items with
    | nil => exact (reads_empty depth).1
    | cons item items =>
      rw [String.toList_append, String.toList_append, String.toList_intercalate, List.map_map, List.append_assoc, comma]
      exact reads_array space blank blank item items ih
  | @obj depth members names each ih =>
    rw [write, writeWith, writeMembers_eq]
    cases members with
    | nil => exact (reads_empty depth).2
    | cons member members =>
      have texts : String.toList ∘ writeMember ", " ": " = memberText fun item => item.write.toList :=
        funext writeMember_toList
      rw [String.toList_append, String.toList_append, String.toList_intercalate, List.map_map, List.append_assoc, comma,
        texts]
      exact reads_object space blank blank member members names ih

/-! ### Whole texts -/

/-- A text that is read as a value wherever it stands is read as the value when it stands alone. -/
theorem readChars_of_reads {text : List Char} (reads : Reads nestingLimit text v) : readChars text = .ok v := by
  obtain ⟨c, more, rfl, head⟩ := reads.head
  have read := reads.read (2 * (c :: more).length + 1) [] closed_nil (by simp)
  have unmarked : headChars.all (· != '\ufeff') = true := by decide
  have marked : c ≠ '\ufeff' := by simpa using List.all_eq_true.mp unmarked c head
  rw [List.append_nil] at read
  unfold readChars
  split
  · rename_i rest same
    exact absurd (List.cons.inj same).1 marked
  · rw [skipSpace_solid (solid_of_head head).1, read]
    rfl

/-- A value that does not nest too deep is read as it was written over several lines. -/
theorem readChars_writeIndented (readable : Readable nestingLimit v) (indent : Nat) :
    readChars (writeIndented indent v).toList = .ok v :=
  readChars_of_reads (reads_writeIndented readable indent)

/-- A value that does not nest too deep is read as it was written on one line. -/
theorem read_write (readable : Readable nestingLimit v) : read v.write = .ok v :=
  readChars_of_reads (reads_write readable)

/-! ### Carriage returns -/

private theorem digitChar_ne : ∀ d < 16, Nat.digitChar d ≠ '\r' := by decide

theorem carriage_not_mem_unitEscape {n : Nat} (small : n < 0x10000) : '\r' ∉ unitEscape n := by
  rw [unitEscape, hexChars_four small]
  simp only [List.mem_cons, List.not_mem_nil, or_false, not_or]
  exact ⟨by decide, by decide, (digitChar_ne _ (by omega)).symm, (digitChar_ne _ (by omega)).symm,
    (digitChar_ne _ (by omega)).symm, (digitChar_ne _ (by omega)).symm⟩

/-- Carriage returns are written as escapes. -/
theorem carriage_not_mem_writeChar (c : Char) : '\r' ∉ writeChar c := by
  have valid : c.toNat < 0x110000 := by
    have : c.toNat < 0xd800 ∨ (0xdfff < c.toNat ∧ c.toNat < 0x110000) := c.valid
    omega
  unfold writeChar
  split_ifs with quote slash feed carriage tab form space plain basic
  · decide
  · decide
  · decide
  · decide
  · decide
  · decide
  · decide
  · simpa using fun same => carriage same.symm
  · exact carriage_not_mem_unitEscape basic
  · rw [List.mem_append, not_or]
    exact ⟨carriage_not_mem_unitEscape (by omega), carriage_not_mem_unitEscape (by omega)⟩

theorem carriage_not_mem_writeString (s : String) : '\r' ∉ (writeString s).toList := by
  rw [writeString_toList]
  simp only [List.mem_cons, List.mem_append, List.mem_flatMap, List.not_mem_nil, or_false, not_or, not_exists,
    not_and]
  exact ⟨by decide, fun c _ => carriage_not_mem_writeChar c, by decide⟩

theorem carriage_not_mem_lineBreak (line : Nat) : '\r' ∉ (lineBreak line).toList := by
  simp [lineBreak_toList]

theorem carriage_not_mem_bracketed {opening closing : String} {texts : List String}
    (opens : '\r' ∉ opening.toList) (closes : '\r' ∉ closing.toList)
    (none : ∀ text ∈ texts, '\r' ∉ text.toList) (line : Nat) :
    '\r' ∉ (bracketed opening closing line texts).toList := by
  cases texts with
  | nil => simpa [bracketed] using ⟨opens, closes⟩
  | cons text texts =>
    rw [bracketed_toList]
    simp only [List.mem_append, not_or]
    refine ⟨opens, carriage_not_mem_lineBreak _, fun inside => ?_, carriage_not_mem_lineBreak _, closes⟩
    rcases Text.mem_intercalate inside with inside | ⟨part, member, inside⟩
    · rw [border, List.mem_cons] at inside
      rcases inside with same | inside
      · exact absurd same (by decide)
      · exact carriage_not_mem_lineBreak _ inside
    · obtain ⟨text', among, rfl⟩ := List.mem_map.mp member
      exact none text' among inside

theorem carriage_not_mem_writeIndented (readable : Readable depth v) (indent : Nat) :
    '\r' ∉ (writeIndented indent v).toList := by
  induction readable generalizing indent with
  | null => rw [writeIndented]; decide
  | bool b => cases b <;> (rw [writeIndented]; decide)
  | int short =>
    rw [writeIndented]
    exact fun member => absurd (mem_written member) (by decide)
  | str s =>
    rw [writeIndented]
    exact carriage_not_mem_writeString s
  | arr each ih =>
    rw [writeIndented, writeIndentedItems_eq]
    refine carriage_not_mem_bracketed (by decide) (by decide) (fun text member => ?_) indent
    obtain ⟨item, inside, rfl⟩ := List.mem_map.mp member
    exact ih item inside _
  | obj names each ih =>
    rw [writeIndented, writeIndentedMembers_eq]
    refine carriage_not_mem_bracketed (by decide) (by decide) (fun text member => ?_) indent
    obtain ⟨⟨name, item⟩, inside, rfl⟩ := List.mem_map.mp member
    have first := carriage_not_mem_writeString name
    have second := ih (name, item) inside (indent + 1)
    simp only [writeIndentedMember, String.toList_append, List.mem_append, not_or]
    exact ⟨⟨first, by decide⟩, second⟩

end Retouch.Json
