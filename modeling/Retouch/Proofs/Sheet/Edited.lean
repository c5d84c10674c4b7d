import Retouch.Proofs.Sheet.Undisturbed

/-!
# Edits of declarations as changes of rows

Setting a property changes the value of its first declaration, or adds one at the end; removing it takes its first
declaration out. What an edit makes of the text behind an undisturbed place is read as a declaration with another value,
as another declaration, or as what stood around a declaration; so the row of the rule is changed as it should be. Whether
the sheet says so afterwards depends on the text around: the one in front has to be read as it was, and no comment of a
value may go on behind it.

## Main statements

* `set_replaces`: a value that fits is put in the place of another one.
* `append_behind`, `append_close`, `append_fills`, `append_inside`: a declaration is added in each layout.
* `remove_drops`: a declaration is taken out.
* `edits_refine`: an edit is the change of the row of its rule.
-/
namespace Retouch.Sheet

variable {s v rest : List Char} {sheet after : Sheet} {rule : Rule} {p : Placed} {index place : Nat}
  {property value : String}

/-! ### Rows -/

namespace Entries

variable {e : Entry} {front behind row : List Entry}

theorem put_at (text : String) (early : ∀ e ∈ front, e.isOf property = false) (here : e.isOf property = true) :
    put property text (front ++ e :: behind) = front ++ { e with text := Text.trim text.toList } :: behind := by
  induction front with
  | nil => exact if_pos here
  | cons first front ih =>
    rw [List.cons_append, put, if_neg (by simp [early first (by simp)]), ih fun e member => early e (by simp [member])]
    rfl

theorem put_new (text : String) (none : ∀ e ∈ row, e.isOf property = false) :
    put property text row = row ++ [⟨property.toList, Text.trim text.toList, false⟩] := by
  induction row with
  | nil => rfl
  | cons first row ih =>
    rw [put, if_neg (by simp [none first (by simp)]), ih fun e member => none e (by simp [member])]
    rfl

theorem drop_at (early : ∀ e ∈ front, e.isOf property = false) (here : e.isOf property = true) :
    drop property (front ++ e :: behind) = front ++ behind := by
  rw [drop, List.eraseP_append_right _ (by simpa using early), List.eraseP_cons_of_pos here]

end Entries

/-- The first declaration of a property, between those in front of it and those behind it. -/
theorem declaration?_split (found : rule.declaration? property = some p) : ∃ front behind,
    rule.declarations = front ++ p :: behind ∧ (∀ e ∈ front.map Placed.entry, e.isOf property = false) ∧
      p.entry.isOf property = true := by
  obtain ⟨here, front, behind, split, early⟩ := List.find?_eq_some_iff_append.mp found
  refine ⟨front, behind, split, ?_, here⟩
  rintro _ member
  obtain ⟨q, among, rfl⟩ := List.mem_map.mp member
  simpa [Entry.isOf, Placed.entry] using early q among

theorem entries_eq {front behind : List Placed} (split : rule.declarations = front ++ p :: behind) :
    rule.outline.entries = front.map Placed.entry ++ p.entry :: behind.map Placed.entry := by
  rw [Rule.outline, split, List.map_append, List.map_cons]

/-! ### Comments that are left open -/

/-- What cannot stand in a closing mark closes no comment. -/
theorem afterComment_between {t s : List Char} {b : Char} (star : b ≠ '*') (slash : b ≠ '/')
    (left : afterComment (t ++ s) = none) : afterComment (t ++ b :: s) = none := by
  induction t with
  | nil => rwa [List.nil_append, afterComment_cons fun _ same => absurd same star]
  | cons c t ih =>
    have other : ∀ rest, c = '*' → t ++ s = '/' :: rest → False := by
      rintro rest rfl same
      rw [List.cons_append, same] at left
      cases left
    rw [List.cons_append, afterComment_cons other] at left
    rw [List.cons_append, afterComment_cons, ih left]
    rintro rest star' same
    cases t with
    | nil => exact slash (List.cons.inj same).1
    | cons d t =>
      obtain rfl : d = '/' := (List.cons.inj same).1
      exact other _ star' rfl

theorem Shut.between {b : Char} (shut : Shut s v) (star : b ≠ '*') (slash : b ≠ '/') : Shut (b :: s) v :=
  fun t within => (shut t within).imp_right (afterComment_between star slash)

/-- A text without slashes opens no comment. -/
theorem shut_of_slashless (none : '/' ∉ v) : Shut s v :=
  fun _ within => absurd (within.subset List.mem_cons_self) none

theorem Shut.blanks {gap : List Char} (shut : Shut s v) (blank : ∀ b ∈ gap, Text.isPlainBlank b = true) :
    Shut (gap ++ s) v := by
  induction gap with
  | nil => exact shut
  | cons b gap ih =>
    have other {c : Char} (solid : Text.isPlainBlank c = false) : b ≠ c := by
      rintro rfl
      rw [blank b (by simp)] at solid
      cases solid
    exact (ih fun c member => blank c (by simp [member])).between (other (by decide)) (other (by decide))

/-! ### Where a declaration stands -/

section Stated

variable {cs : List Char} {early late : List Item} {d : DeclarationItem} (stated : Stated cs rule p early d late)

include stated

theorem Stated.offsets : p.value = d.value ∧ p.ended = d.ended ∧
    p.valueStart = p.start + (d.name ++ (d.gap ++ [':'])).length ∧ p.valueStop = p.valueStart + d.value.length ∧
      p.entry = ⟨d.name, Text.trim d.value, d.isImportant⟩ ∧ p.important = d.isImportant := by
  rw [stated.placed]
  refine ⟨rfl, rfl, ?_, rfl, rfl, rfl⟩
  simp only [placeDeclaration, List.length_append, List.length_cons, List.length_nil]
  omega

theorem Stated.ends : p.stop = p.start + d.text.length ∧ cs.drop p.start = d.text ++ cs.drop p.stop ∧
    (cs.drop p.start).head? ≠ some '\n' :=
  ⟨by rw [stated.placed]; rfl, (readDeclaration_text _ _ _ _ stated.read).symm,
    fun feed => by cases stated.here.solid feed⟩

/-- The text that a declaration was read from, cut behind its colon and behind its value. -/
theorem Stated.text : cs.drop p.start = (d.name ++ (d.gap ++ [':'])) ++ (d.value ++ cs.drop p.valueStop) ∧
    cs.drop p.valueStop = d.mark ++ ((if d.ended then [';'] else []) ++ cs.drop p.stop) := by
  obtain ⟨-, -, first_eq, last_eq, -⟩ := stated.offsets
  have parts : cs.drop p.start = (d.name ++ (d.gap ++ [':'])) ++ (d.value ++ (d.mark ++
      ((if d.ended then [';'] else []) ++ cs.drop p.stop))) := by
    rw [stated.ends.2.1, DeclarationItem.text]
    simp
  have behind : cs.drop p.valueStop = d.mark ++ ((if d.ended then [';'] else []) ++ cs.drop p.stop) := by
    rw [last_eq, first_eq, ← List.drop_drop, ← List.drop_drop, parts, List.drop_left, List.drop_left]
  exact ⟨behind ▸ parts, behind⟩

theorem Stated.gap (gapTo : GapTo cs place p.start) :
    dropGap .outside (cs.drop place) = dropGap .outside (cs.drop p.start) := by
  rw [bare_of_cut stated.here.1]
  exact gapTo

theorem Stated.row {behind : List Placed} (row : rowOf late = behind.map Placed.entry) :
    rowOf (.declaration d :: late) = p.entry :: behind.map Placed.entry := by
  rw [stated.offsets.2.2.2.2.1, ← row]
  rfl

end Stated

/-- In a sheet without errors each declaration of a rule is read where it stands. -/
theorem stated_of_sound (sound : sheet.hasError = false) (member : rule ∈ sheet.rules) {front behind : List Placed}
    (split : rule.declarations = front ++ p :: behind) : ∃ early d late, Stated sheet.source rule p early d late ∧
      rowOf late = behind.map Placed.entry ∧ p.stop < sheet.source.length := by
  obtain ⟨inner, holds⟩ := holds_of_sound sound member
  obtain ⟨early, d, late, stated, row⟩ := holds.stated split
  have embraced := embraced_of_sound sound member
  have lies := embraced.declared p (by rw [split]; simp)
  exact ⟨early, d, late, stated, row,
    Nat.lt_of_le_of_lt lies.ends (List.getElem?_eq_some_iff.mp embraced.closes).1⟩

/-! ### Another value -/

/-- A value can stand in the place of that of a declaration: no comment of it goes on behind it, and no brace comes
before the end of the declaration. Where no semicolon follows, it is read as such without one, and the block is closed
behind a gap that begins with no comment. -/
structure Replaceable (sheet : Sheet) (p : Placed) (property value : String) : Prop where
  shut : Shut (sheet.source.drop p.valueStop) value.toList
  ahead : bracesAhead (sheet.source.drop p.valueStop) = false
  last : p.ended = false → p.important = false → Stands [] property value ∧
    ∃ rest, Edge (sheet.source.drop p.valueStop) ('}' :: rest)

theorem trailing_blank (holds : Char → Bool) (cs : List Char) :
    ∀ b ∈ cs.drop (Text.trimEndBy holds cs).length, holds b = true := by
  have whole : Text.trimEndBy holds cs ++ (cs.reverse.takeWhile holds).reverse = cs := by
    rw [Text.trimEndBy, ← List.reverse_append, List.takeWhile_append_dropWhile, List.reverse_reverse]
  have tail := congrArg (List.drop (Text.trimEndBy holds cs).length) whole
  intro b member
  rw [← tail, List.drop_left, List.mem_reverse] at member
  exact List.mem_takeWhile_imp member

/-- The blanks that stay in front of a value that is replaced; a blank is written where there were none. -/
def leadOf (value : List Char) : List Char :=
  if (value.takeWhile Text.isPlainBlank).isEmpty then [' '] else value.takeWhile Text.isPlainBlank

theorem leadOf_blank (value : List Char) : leadOf value ≠ [] ∧ ∀ b ∈ leadOf value, Text.isPlainBlank b = true := by
  unfold leadOf
  split
  · exact ⟨List.cons_ne_nil _ _, Text.plainBlank_space⟩
  · rename_i filled
    exact ⟨by simpa using filled, fun b member => List.mem_takeWhile_imp member⟩

/-- What stands between the offsets of a value when another value is put between its blanks. -/
def Placed.renewed (p : Placed) (value : String) : List Char :=
  leadOf p.value ++ value.toList ++ p.value.drop (Text.trimEndBy Text.isPlainBlank p.value).length

theorem replaceValue_eq (sheet : Sheet) (p : Placed) (value : String) :
    sheet.replaceValue p value = sheet.splice p.valueStart p.valueStop (p.renewed value) := rfl

/-- The text of the sheet with another value in a declaration, from a place in front of it on. -/
theorem Stated.replaced {gap : List Char} {early late : List Item} {d : DeclarationItem}
    (stated : Stated sheet.source rule p early d late) (value : String)
    (gap_eq : sheet.source.drop place = gap ++ sheet.source.drop p.start) (start_eq : p.start = place + gap.length)
    (within : place ≤ sheet.source.length) : (sheet.replaceValue p value).source.drop place =
      gap ++ (d.name ++ (d.gap ++ ':' :: (p.renewed value ++ sheet.source.drop p.valueStop))) := by
  obtain ⟨-, -, first_eq, last_eq, -, -⟩ := stated.offsets
  have parts : sheet.source.drop place = (gap ++ (d.name ++ (d.gap ++ [':']))) ++
      (d.value ++ sheet.source.drop p.valueStop) := by
    rw [gap_eq, stated.text.1]
    simp only [List.append_assoc]
  rw [replaceValue_eq, splice_drop within parts (by rw [first_eq, start_eq, @List.length_append _ gap, Nat.add_assoc])
    last_eq]
  simp only [List.append_assoc, List.cons_append, List.nil_append]

/-- What a value that fits is read as, in front of a text that ends a declaration. -/
theorem Replaceable.spelled {early late : List Item} {d : DeclarationItem} (fits : Replaceable sheet p property value)
    (plain : Plain property value) (stated : Stated sheet.source rule p early d late) : ∃ s y,
      Spelled property.toList value.toList s y ∧ (d.mark = [] → d.ended = false →
        y = [] ∧ ∃ rest, Edge (sheet.source.drop p.stop) ('}' :: rest)) := by
  obtain ⟨-, ended_eq, -, -, -, important_eq⟩ := stated.offsets
  by_cases last : d.mark = [] ∧ d.ended = false
  · obtain ⟨unmarked, open_⟩ := last
    have plain' : p.important = false := by rw [important_eq, DeclarationItem.isImportant, unmarked]; rfl
    obtain ⟨stands, rest, edge⟩ := fits.last (ended_eq.trans open_) plain'
    obtain ⟨y, spelled, none, -⟩ := stands.spelled (.inr rfl)
    rw [stated.text.2, unmarked, open_] at edge
    exact ⟨_, y, spelled, fun _ _ => ⟨none rfl, rest, edge⟩⟩
  · obtain ⟨y, spelled, -⟩ := plain.spelled (.inl rfl)
    exact ⟨_, y, spelled, fun unmarked open_ => absurd ⟨unmarked, open_⟩ last⟩

/-- The declaration with a value that fits is read as such, in front of blanks that the value may leave. -/
theorem Replaceable.put {early late : List Item} {d : DeclarationItem} (fits : Replaceable sheet p property value)
    (plain : Plain property value) (stated : Stated sheet.source rule p early d late) : ∃ value' blanks,
      readDeclaration true (d.name ++ (d.gap ++ ':' :: (p.renewed value ++ sheet.source.drop p.valueStop))) =
        some ({ d with value := value' }, blanks ++ sheet.source.drop p.stop) ∧
      Text.trim value' = Text.trim value.toList ∧ ∀ b ∈ blanks, Text.isPlainBlank b = true := by
  have blank' := trailing_blank Text.isPlainBlank p.value
  obtain ⟨spaced, blank⟩ := leadOf_blank p.value
  obtain ⟨s, y, spelled, open_⟩ := fits.spelled plain stated
  obtain ⟨put, blanks, read, trims, blank''⟩ := readDeclaration_put stated.read spelled blank spaced blank'
    stated.text.2 (fits.shut.blanks blank') fits.ahead open_
  refine ⟨put, blanks, ?_, trims, blank''⟩
  rw [Placed.renewed, List.append_assoc, List.append_assoc]
  exact read

theorem set_replaces (sound : sheet.hasError = false) (there : sheet.rules[index]? = some rule)
    (plain : Plain property value) (found : rule.declaration? property = some p)
    (gapTo : GapTo sheet.source place p.start) (fits : Replaceable sheet p property value)
    (undisturbed : Undisturbed sheet (sheet.set rule property value) rule index place) :
    (sheet.set rule property value).hasError = false ∧
      Lands sheet (sheet.set rule property value) index (Entries.put property value) := by
  have member := List.mem_of_getElem? there
  obtain ⟨front, behind, split, others, own⟩ := declaration?_split found
  obtain ⟨early, d, late, stated, row', size⟩ := stated_of_sound sound member split
  obtain ⟨stop_eq, -, solid⟩ := stated.ends
  obtain ⟨gap, gap_eq, start_eq, within, passes⟩ := gapTo.split (by omega) solid
  have edit : sheet.set rule property value = sheet.replaceValue p value := by rw [set, found]
  have spliced := set_spliced (embraced_of_sound sound member) property value
  rw [edit] at spliced undisturbed ⊢
  -- The new value is read in the text of the declaration, and the items behind it as they were.
  obtain ⟨put, blanks, read, trims, blank''⟩ := fits.put plain stated
  obtain ⟨_, ends⟩ := closes_of_sound sound member
  obtain ⟨tail, new, same, alike⟩ := stated.late.regap ends (dropGap_blanks .outside blank'' _)
  refine undisturbed.lands sound there spliced (stated.gap gapTo) ?_ (.of_declaration stated.read stated.late)
    (.of_declaration read new) alike ?_
  · rw [stated.replaced value gap_eq start_eq within, passes]
  · intro row whole
    rw [stated.row row', entries_eq split] at whole
    rw [entries_eq split, List.append_cancel_right whole, Entries.put_at value others own,
      stated.offsets.2.2.2.2.1, ← trims, ← row', ← same]
    rfl

/-! ### Removal -/

/-- Whether a declaration has its line for itself. -/
def takesLine (sheet : Sheet) (p : Placed) : Bool :=
  (between sheet.source (lineStart sheet.source p.start) p.start).all Text.isPlainBlank &&
    (between sheet.source p.stop (lineStop sheet.source p.stop)).all Text.isPlainBlank

/-- Where the text begins that is removed with a declaration. -/
def removalStart (sheet : Sheet) (p : Placed) : Nat :=
  if sheet.takesLine p then lineStart sheet.source p.start else p.start

theorem between_append {cs : List Char} {first middle last : Nat} (order : first ≤ middle) (order' : middle ≤ last) :
    between cs first middle ++ between cs middle last = between cs first last := by
  refine @List.append_cancel_left _ (cs.take first) _ _ ?_
  rw [← List.append_assoc, take_between order, take_between order', take_between (Nat.le_trans order order')]

theorem length_between {cs : List Char} {first last : Nat} (inside : last ≤ cs.length) :
    (between cs first last).length = last - first := by
  rw [between, List.length_drop, List.length_take_of_le inside]

/-- A line begins at the beginning of the text or behind a line feed. -/
theorem take_lineStart {cs : List Char} {offset : Nat} (inside : offset ≤ cs.length) :
    cs.take (lineStart cs offset) = [] ∨ ∃ front, cs.take (lineStart cs offset) = front ++ ['\n'] := by
  have size : (cs.take offset).length = offset := List.length_take_of_le inside
  have parts := List.takeWhile_append_dropWhile (p := fun c => decide (c ≠ '\n')) (l := (cs.take offset).reverse)
  have ends := List.head?_dropWhile_not (fun c => decide (c ≠ '\n')) (cs.take offset).reverse
  have sizes := congrArg List.length parts
  rw [List.length_append, List.length_reverse, size] at sizes
  have whole := congrArg List.reverse parts
  rw [List.reverse_append, List.reverse_reverse] at whole
  have front : cs.take (lineStart cs offset) =
      ((cs.take offset).reverse.dropWhile fun c => decide (c ≠ '\n')).reverse := by
    have order : lineStart cs offset ≤ offset := Nat.sub_le _ _
    have cut := congrArg (List.take (lineStart cs offset)) whole
    rw [List.take_take, Nat.min_eq_left order, List.take_left' (by rw [List.length_reverse, lineStart]; omega)] at cut
    exact cut.symm
  rw [front]
  cases behind : (cs.take offset).reverse.dropWhile fun c => decide (c ≠ '\n') with
  | nil => exact .inl rfl
  | cons c rest =>
    rw [behind] at ends
    obtain rfl : c = '\n' := by simpa using ends
    exact .inr ⟨rest.reverse, List.reverse_cons⟩

/-- A line stops in front of a line feed. -/
theorem drop_lineStop {cs : List Char} {offset : Nat} (inside : lineStop cs offset < cs.length) : ∃ behind,
    cs.drop offset = between cs offset (lineStop cs offset) ++ '\n' :: behind := by
  have parts := List.takeWhile_append_dropWhile (p := fun c => decide (c ≠ '\n')) (l := cs.drop offset)
  have ends := List.head?_dropWhile_not (fun c => decide (c ≠ '\n')) (cs.drop offset)
  have line : between cs offset (lineStop cs offset) = (cs.drop offset).takeWhile fun c => decide (c ≠ '\n') := by
    rw [between, lineStop, List.drop_take, Nat.add_sub_cancel_left]
    conv => lhs; arg 2; rw [← parts]
    exact List.take_left
  rw [line]
  cases behind : (cs.drop offset).dropWhile fun c => decide (c ≠ '\n') with
  | nil =>
    have sizes := congrArg List.length parts
    rw [behind, List.append_nil, List.length_drop] at sizes
    rw [lineStop] at inside
    omega
  | cons c rest =>
    rw [behind] at ends parts
    obtain rfl : c = '\n' := by simpa using ends
    exact ⟨rest, parts.symm⟩

/-- What stands between a place and the beginning of a later line ends with a line feed. -/
theorem between_lineStart {cs : List Char} {offset : Nat} (inside : offset ≤ cs.length)
    (before : place ≤ lineStart cs offset) : between cs place (lineStart cs offset) = [] ∨
      ∃ front, between cs place (lineStart cs offset) = front ++ ['\n'] := by
  have early := @take_between cs _ _ before
  rcases List.eq_nil_or_concat (between cs place (lineStart cs offset)) with none | ⟨front, c, split⟩
  · exact .inl none
  · rw [split] at early ⊢
    rw [List.concat_eq_append] at early ⊢
    rcases take_lineStart inside with none | ⟨front', line⟩
    · rw [none] at early
      simp at early
    · rw [line, ← List.append_assoc] at early
      obtain rfl : c = '\n' := (List.cons.inj (List.append_inj' early rfl).2).1
      exact .inr ⟨front, rfl⟩

section Removal

variable {gap : List Char} {early late : List Item} {d : DeclarationItem}
  (stated : Stated sheet.source rule p early d late) (start_eq : p.start = place + gap.length)
  (gap_eq : sheet.source.drop place = gap ++ sheet.source.drop p.start)

include stated start_eq gap_eq

/-- Without its line a declaration leaves the gaps around it. -/
theorem Stated.removed_line (gapTo : GapTo sheet.source place p.start) (own : sheet.takesLine p = true)
    (before : place ≤ lineStart sheet.source p.start)
    (last : lineStop sheet.source p.stop < sheet.source.length) :
    dropGap .outside ((sheet.removePlaced p).source.drop place) = dropGap .outside (sheet.source.drop p.stop) := by
  obtain ⟨stop_eq, text, solid⟩ := stated.ends
  obtain ⟨blank, blank'⟩ := Bool.and_eq_true_iff.mp own
  rw [List.all_eq_true] at blank blank'
  have order : lineStart sheet.source p.start ≤ p.start := Nat.sub_le _ _
  have below : p.stop ≤ lineStop sheet.source p.stop := Nat.le_add_right _ _
  obtain ⟨behind, tail⟩ := drop_lineStop last
  -- The blanks of the line stand behind the rest of the gap, and behind the declaration up to a line feed.
  have gap_parts : gap = between sheet.source place (lineStart sheet.source p.start) ++
      between sheet.source (lineStart sheet.source p.start) p.start := by
    rw [between_append before order]
    refine List.append_cancel_left ((?_ : sheet.source.take place ++ gap = _).trans (take_between (by omega)).symm)
    refine List.append_cancel_right ((?_ : _ ++ sheet.source.drop p.start = _))
    rw [List.append_assoc, ← gap_eq, List.take_append_drop, List.take_append_drop]
  have parts : sheet.source.drop place = between sheet.source place (lineStart sheet.source p.start) ++
      ((between sheet.source (lineStart sheet.source p.start) p.start ++ (d.text ++
        (between sheet.source p.stop (lineStop sheet.source p.stop) ++ ['\n']))) ++ behind) := by
    rw [gap_eq, text, tail]
    conv => lhs; rw [gap_parts]
    simp only [List.append_assoc, List.cons_append, List.nil_append]
  have edit : sheet.removePlaced p = sheet.splice (lineStart sheet.source p.start)
      (min (lineStop sheet.source p.stop + 1) sheet.source.length) [] := if_pos own
  have feed : dropGap .outside ('\n' :: behind) = dropGap .outside behind :=
    @dropGap_blanks ['\n'] .outside (List.forall_mem_singleton.mpr rfl) behind
  rw [edit, Nat.min_eq_left last, splice_drop (by omega) parts ?first ?last, tail, dropGap_blanks .outside blank', feed,
    List.nil_append]
  case first =>
    rw [length_between (by omega)]
    omega
  case last =>
    simp only [List.length_append, List.length_cons, List.length_nil]
    rw [length_between (by omega), length_between last.le]
    omega
  rcases between_lineStart (by omega) before with none | ⟨front, split⟩
  · rw [none]
    rfl
  · rw [split, List.append_assoc] at gap_parts
    rw [split, List.append_assoc, ← feed]
    refine @gap_seam _ _ front ('\n' :: between sheet.source (lineStart sheet.source p.start) p.start)
      (List.forall_mem_cons.mpr ⟨by decide, blank⟩) (.inr rfl) ?_ stated.here.2.1 solid (.inr rfl)
    have whole : front ++ '\n' :: between sheet.source (lineStart sheet.source p.start) p.start = gap := gap_parts.symm
    rw [← List.append_assoc, whole, ← gap_eq]
    exact gapTo

/-- With the blanks behind it a declaration leaves the gaps around it. -/
theorem Stated.removed_span (passes : ∀ s, dropGap .outside (gap ++ s) = dropGap .outside s)
    (within : place ≤ sheet.source.length) (shared : sheet.takesLine p = false) :
    dropGap .outside ((sheet.removePlaced p).source.drop place) = dropGap .outside (sheet.source.drop p.stop) := by
  obtain ⟨stop_eq, text, -⟩ := stated.ends
  have blanks := List.takeWhile_append_dropWhile (p := fun c => decide (c = ' ') || decide (c = '\t'))
    (l := sheet.source.drop p.stop)
  have blank : ∀ b ∈ (sheet.source.drop p.stop).takeWhile fun c => decide (c = ' ') || decide (c = '\t'),
      Text.isPlainBlank b = true := by
    intro b member
    have held := List.mem_takeWhile_imp member
    simp only [Bool.or_eq_true, decide_eq_true_eq] at held
    rcases held with rfl | rfl <;> decide
  have parts : sheet.source.drop place = gap ++ ((d.text ++ (sheet.source.drop p.stop).takeWhile fun c =>
      decide (c = ' ') || decide (c = '\t')) ++ (sheet.source.drop p.stop).dropWhile fun c =>
        decide (c = ' ') || decide (c = '\t')) := by
    rw [List.append_assoc, blanks, ← text, gap_eq]
  have edit : sheet.removePlaced p = sheet.splice p.start (p.stop + ((sheet.source.drop p.stop).takeWhile fun c =>
      decide (c = ' ') || decide (c = '\t')).length) [] := if_neg (Bool.eq_false_iff.mp shared)
  rw [edit, splice_drop within parts start_eq (by rw [List.length_append, stop_eq, Nat.add_assoc]), passes]
  conv => rhs; rw [← blanks, dropGap_blanks .outside blank]
  rfl

end Removal

theorem remove_drops (sound : sheet.hasError = false) (there : sheet.rules[index]? = some rule)
    (found : rule.declaration? property = some p) (gapTo : GapTo sheet.source place p.start)
    (before : place ≤ sheet.removalStart p)
    (undisturbed : Undisturbed sheet (sheet.removePlaced p) rule index place) :
    (sheet.removePlaced p).hasError = false ∧
      Lands sheet (sheet.removePlaced p) index (Entries.drop property) := by
  have member := List.mem_of_getElem? there
  have embraced := embraced_of_sound sound member
  obtain ⟨front, behind, split, others, own⟩ := declaration?_split found
  obtain ⟨early, d, late, stated, row', size⟩ := stated_of_sound sound member split
  obtain ⟨stop_eq, -, solid⟩ := stated.ends
  obtain ⟨gap, gap_eq, start_eq, within, passes⟩ := gapTo.split (by omega) solid
  have removed : dropGap .outside ((sheet.removePlaced p).source.drop place) =
      dropGap .outside (sheet.source.drop p.stop) := by
    rw [removalStart] at before
    cases line : sheet.takesLine p with
    | true =>
      rw [if_pos line] at before
      have ends := (embraced.declared p (by rw [split]; simp)).ends
      have last := lineStop_lt embraced.closes ends (Bool.and_eq_true_iff.mp line).2
      exact stated.removed_line start_eq gap_eq gapTo line before
        (Nat.lt_trans last (List.getElem?_eq_some_iff.mp embraced.closes).1)
    | false => exact stated.removed_span start_eq gap_eq passes within line
  refine undisturbed.lands sound there (removePlaced_spliced embraced (declaration?_member found)) (stated.gap gapTo)
    removed (.of_declaration stated.read stated.late) stated.late rfl ?_
  intro row whole
  rw [stated.row row', entries_eq split] at whole
  rw [entries_eq split, List.append_cancel_right whole, Entries.drop_at others own, row']

/-! ### Another declaration -/

/-- The item of a declaration that is added. -/
def addedItem (property value : String) : Item :=
  .declaration ⟨property.toList, [], ' ' :: value.toList, [], true⟩

theorem rowOf_added (property value : String) : rowOf [addedItem property value] =
    [⟨property.toList, Text.trim value.toList, false⟩] := by
  have spaced : Text.trim (' ' :: value.toList) = Text.trim value.toList := @Text.trim_blanks [' '] _ Text.blank_space
  exact congrArg (fun text => [Entry.mk property.toList text false]) spaced

/-- A declaration that is added is read in front of anything that closes no comment of it. -/
theorem Plain.reads {items : List Item} {stop : List Char} (plain : Plain property value)
    (shut : Shut rest value.toList) (more : Reads .block rest items stop) :
    Reads .block (line property value ++ rest) (addedItem property value :: items) stop := by
  obtain ⟨y, spelled, -⟩ := plain.spelled (.inl rfl)
  have read := spelled.declaration (shut.between (b := ';') (by decide) (by decide))
  have whole : line property value ++ rest = property.toList ++ ':' :: ' ' :: (value.toList ++ ';' :: rest) := by
    simp [line]
  rw [whole]
  exact .of_declaration read more

theorem declaration?_eq_none (new : rule.declaration? property = none) :
    ∀ e ∈ rule.outline.entries, e.isOf property = false := by
  rintro _ member
  obtain ⟨q, among, rfl⟩ := List.mem_map.mp member
  simpa [Entry.isOf, Placed.entry] using List.find?_eq_none.mp new q among

theorem indent_blank (cs : List Char) (offset : Nat) : ∀ b ∈ indentAt cs offset, Text.isPlainBlank b = true :=
  fun _ member => List.mem_takeWhile_imp member

/-- Behind the last declaration the new one follows a blank, or stands on a line of its own. -/
theorem append_last (sheet : Sheet) (property value : String) (found : rule.declarations.getLast? = some p) :
    ∃ gap, (∀ b ∈ gap, Text.isPlainBlank b = true) ∧ sheet.append rule property value =
      sheet.splice p.stop p.stop ((if p.ended then [] else [';']) ++ (gap ++ line property value)) := by
  unfold append
  rw [found]
  dsimp only
  split
  · exact ⟨[' '], Text.plainBlank_space, rfl⟩
  · exact ⟨'\n' :: indentAt sheet.source p.start, List.forall_mem_cons.mpr ⟨by decide, indent_blank _ _⟩, by simp⟩

theorem append_first (none : rule.declarations = []) : sheet.append rule property value =
    if (between sheet.source rule.innerStart rule.closing).all Text.isPlainBlank then
      sheet.splice rule.innerStart rule.closing ('\n' :: indentAt sheet.source rule.start ++ indentStep ++
        line property value ++ '\n' :: indentAt sheet.source rule.start)
    else sheet.splice rule.closing rule.closing (' ' :: line property value ++ [' ']) := by
  unfold append
  rw [none]
  rfl

/-- Behind a row that does not declare the property stands the declaration that is added. -/
theorem row_added {row : List Entry} {late : List Item} (new : rule.declaration? property = none)
    (last : rowOf late = []) (whole : row ++ rowOf late = rule.outline.entries) :
    row ++ rowOf (addedItem property value :: late) = Entries.put property value rule.outline.entries := by
  have behind : rowOf (addedItem property value :: late) = rowOf [addedItem property value] ++ rowOf late :=
    rowOf_append [_] late
  rw [Entries.put_new value (declaration?_eq_none new), behind, rowOf_added, last, ← whole, last, List.append_nil,
    List.append_nil]

section Append

variable (sound : sheet.hasError = false) (there : sheet.rules[index]? = some rule) (plain : Plain property value)
  (new : rule.declaration? property = none)
  (undisturbed : Undisturbed sheet (sheet.append rule property value) rule index place)

include sound there plain new undisturbed

theorem append_behind (found : rule.declarations.getLast? = some p) (ended : p.ended = true) (here : place = p.stop)
    (shut : Shut (sheet.source.drop p.stop) value.toList) : (sheet.append rule property value).hasError = false ∧
      Lands sheet (sheet.append rule property value) index (Entries.put property value) := by
  have member := List.mem_of_getElem? there
  obtain ⟨front, split⟩ := List.getLast?_eq_some_iff.mp found
  obtain ⟨early, d, late, stated, row', size⟩ := stated_of_sound sound member split
  obtain ⟨gap, blank, edit⟩ := append_last sheet property value found
  have text : (sheet.append rule property value).source.drop place =
      gap ++ (line property value ++ sheet.source.drop p.stop) := by
    have parts : sheet.source.drop place = [] ++ ([] ++ sheet.source.drop p.stop) := by rw [here]; rfl
    rw [edit, splice_drop (by omega) parts here.symm (Nat.add_zero _).symm, ended]
    simp
  refine undisturbed.lands sound there (append_spliced (embraced_of_sound sound member) property value) (by rw [here])
    ?_ stated.late (plain.reads shut stated.late) rfl ?_
  · rw [text, dropGap_blanks .outside blank]
  · exact fun row whole => row_added new row' whole

theorem append_close (found : rule.declarations.getLast? = some p) (open_ : p.ended = false)
    (gapTo : GapTo sheet.source place p.start) {core : List Char} (edge : Edge (sheet.source.drop p.stop) core)
    (shut : Shut (sheet.source.drop p.stop) value.toList)
    (shut' : Shut (line property value ++ sheet.source.drop p.stop) (between sheet.source p.valueStart p.stop)) :
    (sheet.append rule property value).hasError = false ∧
      Lands sheet (sheet.append rule property value) index (Entries.put property value) := by
  have member := List.mem_of_getElem? there
  obtain ⟨front, split⟩ := List.getLast?_eq_some_iff.mp found
  obtain ⟨early, d, late, stated, row', size⟩ := stated_of_sound sound member split
  obtain ⟨stop_eq, text, solid⟩ := stated.ends
  obtain ⟨gap, gap_eq, start_eq, within, passes⟩ := gapTo.split (by omega) solid
  obtain ⟨blanks, blank, edit⟩ := append_last sheet property value found
  obtain ⟨-, ended_eq, first_eq, -, entry_eq, -⟩ := stated.offsets
  rw [ended_eq] at open_
  have text_eq : d.text = d.name ++ (d.gap ++ ':' :: (d.value ++ d.mark)) := by
    rw [DeclarationItem.text, open_]
    simp
  -- The semicolon stands behind the value and the mark of importance.
  have new_text : (sheet.append rule property value).source.drop place = gap ++ (d.name ++ (d.gap ++ ':' ::
      (d.value ++ d.mark ++ ';' :: (blanks ++ (line property value ++ sheet.source.drop p.stop))))) := by
    have parts : sheet.source.drop place = (gap ++ d.text) ++ ([] ++ sheet.source.drop p.stop) := by
      rw [gap_eq, text, List.append_assoc, List.nil_append]
    rw [edit, splice_drop within parts (by rw [List.length_append, stop_eq, start_eq, Nat.add_assoc])
      (Nat.add_zero _).symm, ended_eq, open_, text_eq]
    simp
  have inside : between sheet.source p.valueStart p.stop = d.value ++ d.mark := by
    obtain ⟨front_eq, behind_eq⟩ := stated.text
    have value_text : sheet.source.drop p.valueStart = (d.value ++ d.mark) ++ sheet.source.drop p.stop := by
      rw [first_eq, ← List.drop_drop, front_eq, List.drop_left, behind_eq, open_]
      simp
    rw [between, List.drop_take, value_text]
    refine List.take_left' ?_
    rw [stop_eq, first_eq, text_eq]
    simp only [List.length_append, List.length_cons, List.length_nil]
    omega
  rw [inside] at shut'
  have close := readDeclaration_close stated.read open_ edge
    ((shut'.blanks blank).between (b := ';') (by decide) (by decide))
  obtain ⟨_, closes⟩ := closes_of_sound sound member
  obtain ⟨tail, reads, same, alike⟩ := (plain.reads shut stated.late).regap closes (dropGap_blanks .outside blank _)
  refine undisturbed.lands sound there (append_spliced (embraced_of_sound sound member) property value)
    (stated.gap gapTo) ?_ (.of_declaration stated.read stated.late) (.of_declaration close reads) alike ?_
  · rw [new_text, passes]
  · intro row whole
    have declared : row ++ [p.entry] ++ rowOf late = rule.outline.entries := by
      rw [List.append_assoc, ← whole, entry_eq]
      rfl
    rw [← row_added new row' declared, ← same, List.append_assoc, entry_eq]
    rfl

theorem append_fills (none : rule.declarations = []) (here : place = rule.innerStart)
    (blank : (between sheet.source rule.innerStart rule.closing).all Text.isPlainBlank = true)
    (shut : Shut (sheet.source.drop rule.closing) value.toList) : (sheet.append rule property value).hasError = false ∧
      Lands sheet (sheet.append rule property value) index (Entries.put property value) := by
  have member := List.mem_of_getElem? there
  have embraced := embraced_of_sound sound member
  have size := (List.getElem?_eq_some_iff.mp embraced.closes).1
  have order := embraced.filled
  have parts : sheet.source.drop place = [] ++ (between sheet.source rule.innerStart rule.closing ++
      sheet.source.drop rule.closing) := by
    rw [here, List.nil_append, between_drop order size.le]
  have indent := indent_blank sheet.source rule.start
  have blank' : ∀ b ∈ '\n' :: indentAt sheet.source rule.start, Text.isPlainBlank b = true :=
    List.forall_mem_cons.mpr ⟨by decide, indent⟩
  have text : (sheet.append rule property value).source.drop place =
      ('\n' :: indentAt sheet.source rule.start ++ indentStep) ++
        (line property value ++ ('\n' :: indentAt sheet.source rule.start ++ sheet.source.drop rule.closing)) := by
    rw [append_first none, if_pos blank, splice_drop (by omega) parts here.symm (by rw [length_between size.le]; omega)]
    simp only [List.nil_append, List.append_assoc, List.cons_append]
  obtain ⟨_, closes⟩ := closes_of_sound sound member
  obtain ⟨tail, reads, same, alike⟩ := Reads.regap .nil closes (dropGap_blanks .outside blank' _)
  refine undisturbed.lands sound there (append_spliced embraced property value) ?_ ?_ .nil
    (plain.reads (shut.blanks blank') reads) alike ?_
  · rw [parts, List.nil_append, dropGap_blanks .outside (List.all_eq_true.mp blank)]
  · rw [text, dropGap_blanks .outside]
    exact List.forall_mem_append.mpr ⟨blank', List.forall_mem_cons.mpr ⟨rfl, Text.plainBlank_space⟩⟩
  · exact fun row whole => row_added new same (same ▸ whole)

theorem append_inside (none : rule.declarations = [])
    (filled : (between sheet.source rule.innerStart rule.closing).all Text.isPlainBlank = false)
    (gapTo : GapTo sheet.source place rule.closing) (shut : Shut (sheet.source.drop rule.closing) value.toList) :
    (sheet.append rule property value).hasError = false ∧
      Lands sheet (sheet.append rule property value) index (Entries.put property value) := by
  have member := List.mem_of_getElem? there
  have embraced := embraced_of_sound sound member
  have size := (List.getElem?_eq_some_iff.mp embraced.closes).1
  obtain ⟨rest, closes⟩ := closes_of_sound sound member
  have brace := closes.inside (by decide)
  obtain ⟨gap, gap_eq, start_eq, within, passes⟩ := gapTo.split size (by rw [brace]; rintro ⟨⟩)
  have text : (sheet.append rule property value).source.drop place = gap ++ (' ' :: (line property value ++
      (' ' :: sheet.source.drop rule.closing))) := by
    have parts : sheet.source.drop place = gap ++ ([] ++ sheet.source.drop rule.closing) := gap_eq
    rw [append_first none, if_neg (by simp [filled]), splice_drop within parts start_eq (Nat.add_zero _).symm]
    simp
  obtain ⟨tail, reads, same, alike⟩ := Reads.regap .nil closes (dropGap_blanks .outside Text.plainBlank_space _)
  refine undisturbed.lands sound there (append_spliced embraced property value) ?_ ?_ .nil
    (plain.reads (shut.blanks Text.plainBlank_space) reads) alike ?_
  · rw [gapTo, brace, dropGap_solid rfl]
  · rw [text, passes]
    exact @dropGap_blanks [' '] .outside Text.plainBlank_space _
  · exact fun row whole => row_added new same (same ▸ whole)

end Append

/-! ### Edits as changes of rows -/

/-- The layouts in which a property can be set, with a place up to which the text is read in front of what changes. -/
inductive Layout (sheet : Sheet) (rule : Rule) (property value : String) : Nat → Prop where
  /-- The property is declared, and the value takes the place of the old one. -/
  | replaces {p : Placed} {place : Nat} (found : rule.declaration? property = some p)
      (gap : GapTo sheet.source place p.start) (fits : Replaceable sheet p property value) :
      Layout sheet rule property value place
  /-- The declaration follows one with a semicolon. -/
  | behind {p : Placed} (new : rule.declaration? property = none) (found : rule.declarations.getLast? = some p)
      (ended : p.ended = true) (shut : Shut (sheet.source.drop p.stop) value.toList) :
      Layout sheet rule property value p.stop
  /-- The declaration follows one without a semicolon, which gets one. -/
  | closes {p : Placed} {place : Nat} {core : List Char} (new : rule.declaration? property = none)
      (found : rule.declarations.getLast? = some p) (open_ : p.ended = false) (gap : GapTo sheet.source place p.start)
      (edge : Edge (sheet.source.drop p.stop) core) (shut : Shut (sheet.source.drop p.stop) value.toList)
      (shut' : Shut (line property value ++ sheet.source.drop p.stop) (between sheet.source p.valueStart p.stop)) :
      Layout sheet rule property value place
  /-- The rule was empty. -/
  | fills (none : rule.declarations = [])
      (blank : (between sheet.source rule.innerStart rule.closing).all Text.isPlainBlank = true)
      (shut : Shut (sheet.source.drop rule.closing) value.toList) : Layout sheet rule property value rule.innerStart
  /-- The declaration follows other items. -/
  | follows {place : Nat} (none : rule.declarations = [])
      (filled : (between sheet.source rule.innerStart rule.closing).all Text.isPlainBlank = false)
      (gap : GapTo sheet.source place rule.closing) (shut : Shut (sheet.source.drop rule.closing) value.toList) :
      Layout sheet rule property value place

/-- A property can be set in the rule of a number. -/
def Settable (sheet : Sheet) (rule : Rule) (index : Nat) (property value : String) : Prop :=
  ∃ place, Layout sheet rule property value place ∧ Undisturbed sheet (sheet.set rule property value) rule index place

/-- The first declaration of a property, if there is one, can be removed from the rule of a number. -/
def Removable (sheet : Sheet) (rule : Rule) (index : Nat) (property : String) : Prop :=
  ∀ p, rule.declaration? property = some p → ∃ place, GapTo sheet.source place p.start ∧
    place ≤ sheet.removalStart p ∧ Undisturbed sheet (sheet.removePlaced p) rule index place

/-- The sheet after a declaration was removed, or not. -/
def removed (sheet : Sheet) (rule : Rule) (property : String) : Sheet := (sheet.remove? rule property).getD sheet

/-- Edits of declarations are changes of the row of their rule: setting a property to a plain value changes the text of
its first declaration, or adds one at the end; removing it takes its first declaration out. All else stays, and the
sheet has no errors. -/
theorem edits_refine (sheet : Sheet) (sound : sheet.hasError = false) (rule : Rule) (index : Nat)
    (there : sheet.rules[index]? = some rule) (property : String) :
    (∀ value, Plain property value → Settable sheet rule index property value →
      (sheet.set rule property value).hasError = false ∧
        Lands sheet (sheet.set rule property value) index (Entries.put property value)) ∧
    (Removable sheet rule index property → (sheet.removed rule property).hasError = false ∧
      Lands sheet (sheet.removed rule property) index (Entries.drop property)) ∧
    (sheet.remove? rule property).isSome = (Entries.find? property rule.outline.entries).isSome := by
  refine ⟨fun value plain settable => ?_, fun removable => ?_, ?_⟩
  · obtain ⟨place, layout, undisturbed⟩ := settable
    have adds (new : rule.declaration? property = none) :
        sheet.set rule property value = sheet.append rule property value := by rw [set, new]
    have empty (none : rule.declarations = []) : rule.declaration? property = .none := by
      rw [Rule.declaration?, none]
      rfl
    cases layout with
    | replaces found gap fits => exact set_replaces sound there plain found gap fits undisturbed
    | behind new found ended shut =>
      rw [adds new] at undisturbed ⊢
      exact append_behind sound there plain new undisturbed found ended rfl shut
    | closes new found open_ gap edge shut shut' =>
      rw [adds new] at undisturbed ⊢
      exact append_close sound there plain new undisturbed found open_ gap edge shut shut'
    | fills none blank shut =>
      rw [adds (empty none)] at undisturbed ⊢
      exact append_fills sound there plain (empty none) undisturbed none rfl blank shut
    | follows none filled gap shut =>
      rw [adds (empty none)] at undisturbed ⊢
      exact append_inside sound there plain (empty none) undisturbed none filled gap shut
  · unfold removed remove?
    cases found : rule.declaration? property with
    | none =>
      have same : Entries.drop property rule.outline.entries = rule.outline.entries :=
        List.eraseP_of_forall_not fun e member => by simp [declaration?_eq_none found e member]
      have stays : Lands sheet sheet index id := (List.modify_id index _).symm
      exact ⟨sound, Lands.congr there same.symm stays⟩
    | some p =>
      obtain ⟨place, gap, before, undisturbed⟩ := removable p found
      exact remove_drops sound there found gap before undisturbed
  · rw [← declaration?_entry, remove?, Option.isSome_map, Option.isSome_map]

private def insetText : String := ".a \x7b\n  Top: 0;\n  left: 1px\n\x7d\n"

private def insetRule : Rule where
  start := 0
  selector := ".a".toList
  opening := 3
  innerStart := 4
  closing := 27
  declarations := [⟨"Top".toList, " 0".toList, false, true, 7, 14, 11, 13⟩,
    ⟨"left".toList, " 1px".toList, false, false, 17, 26, 22, 26⟩]
  container := none

/-- Nothing stands in front of the first declaration of the first rule. -/
private theorem undisturbed_first {head gap : List Char} (heads : Heads .sheet (withoutMark sheet.source) .rule head gap
      (sheet.source.drop rule.innerStart)) (heads' : Heads .sheet (withoutMark after.source) .rule head gap
        (after.source.drop rule.innerStart)) : Undisturbed sheet after rule 0 rule.innerStart :=
  ⟨.rule heads heads', [], .nil, .nil⟩

/-- The first declaration of a rule on several lines is set under another name, and removed with its line. -/
theorem edits_refine_inset : (Sheet.ofText insetText).hasError = false ∧
    Lands (Sheet.ofText insetText) ((Sheet.ofText insetText).set insetRule "TOP" "2px") 0 (Entries.put "TOP" "2px") ∧
      Lands (Sheet.ofText insetText) ((Sheet.ofText insetText).removed insetRule "TOP") 0 (Entries.drop "TOP") := by
  have sound : (Sheet.ofText insetText).hasError = false := by decide +kernel
  have plain : Plain "TOP" "2px" := ⟨by decide +kernel, List.map_eq_singleton_iff.mp (by decide +kernel)⟩
  have first : insetRule.declaration? "TOP" = some (insetRule.declarations.head (by decide)) := by decide +kernel
  have heads : Heads .sheet (withoutMark (Sheet.ofText insetText).source) .rule ".a".toList [' ']
      ((Sheet.ofText insetText).source.drop insetRule.innerStart) :=
    ⟨⟨by decide +kernel, by decide +kernel, by decide +kernel⟩, by decide +kernel, by decide +kernel⟩
  have gap : GapTo (Sheet.ofText insetText).source insetRule.innerStart 7 := by
    unfold GapTo
    decide +kernel
  obtain ⟨sets, removes, -⟩ := edits_refine _ sound insetRule 0 (by decide +kernel) "TOP"
  refine ⟨sound, (sets "2px" plain ⟨_, .replaces first gap ⟨?_, ?_, ?_⟩, undisturbed_first heads ?_⟩).2,
    (removes fun p found => ?_).2⟩
  · exact shut_of_slashless (by decide)
  · decide +kernel
  · exact fun open_ => absurd open_ (by decide)
  · exact ⟨⟨by decide +kernel, by decide +kernel, by decide +kernel⟩, by decide +kernel, by decide +kernel⟩
  · obtain rfl := Option.some.inj (first.symm.trans found)
    exact ⟨_, gap, by decide +kernel, undisturbed_first heads
      ⟨⟨by decide +kernel, by decide +kernel, by decide +kernel⟩, by decide +kernel, by decide +kernel⟩⟩

/-! ### A value that ends with a comment -/

private def openText : String := ".a \x7b color: red \x7d"

private def openRule : Rule where
  start := 0
  selector := ".a".toList
  opening := 3
  innerStart := 4
  closing := 16
  declarations := [⟨"color".toList, " red".toList, false, false, 5, 15, 11, 15⟩]
  container := none

/-- Without a semicolon behind it, the comment at the end of a plain value is not read as a part of it. -/
theorem set_loses_comment : ∃ (sheet : Sheet) (rule : Rule), sheet.hasError = false ∧ sheet.rules[0]? = some rule ∧
    Plain "color" "blue /* c */" ∧
      ¬Lands sheet (sheet.set rule "color" "blue /* c */") 0 (Entries.put "color" "blue /* c */") := by
  refine ⟨.ofText openText, openRule, by decide +kernel, by decide +kernel,
    ⟨by decide +kernel, List.map_eq_singleton_iff.mp (by decide +kernel)⟩, ?_⟩
  unfold Lands
  decide +kernel

end Retouch.Sheet
