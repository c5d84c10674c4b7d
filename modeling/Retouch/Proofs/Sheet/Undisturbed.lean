import Retouch.Proofs.Sheet.Spelled
import Retouch.Proofs.Sheet.Lookup

/-!
# Edits behind what is read as before

Where the text in front of an edit is read as it was, up to a place in a rule, the edit comes to what it makes of the
items behind this place. What stands behind the edit is the same text, and its items are the same, whatever
became of the gap in front of them.

## Main statements

* `Undisturbed.lands`: then the sheet says the same, but for the row of the rule.
-/
namespace Retouch.Sheet

variable {level : Level} {cs cs' rest s s' stop final mid : List Char} {items inner : List Item} {sheet after : Sheet}
  {rule : Rule} {index place : Nat} {p : Placed}

/-! ### Gaps between items -/

theorem rowOf_append (items more : List Item) : rowOf (items ++ more) = rowOf items ++ rowOf more :=
  List.filterMap_append

theorem othersOf_append (items more : List Item) : othersOf (items ++ more) = othersOf items ++ othersOf more :=
  List.filter_append _ _

theorem rowOf_gapItems (gap : List Char) : rowOf (gapItems gap) = [] := by cases gap <;> rfl

theorem othersOf_gapItems (gap : List Char) : othersOf (gapItems gap) = [] := by cases gap <;> rfl

theorem cut_gap (spot : Spot) (cs : List Char) : ∃ gap, gap ++ dropGap spot cs = cs ∧
    cut cs (dropGap spot cs) = (gap, dropGap spot cs) := by
  obtain ⟨gap, whole⟩ := (takes_dropGap taking_all spot cs).suffix
  refine ⟨gap, whole, ?_⟩
  conv => lhs; arg 1; rw [← whole]
  exact cut_of_append gap _

/-- A gap in front of items. -/
theorem Reads.behind {gap : List Char} (drops : dropGap .outside (gap ++ cs) = cs) (reads : Reads level cs items stop) :
    Reads level (gap ++ cs) (gapItems gap ++ items) stop := by
  cases gap with
  | nil => exact reads
  | cons c gap => exact .gap (drops.symm ▸ cut_of_append (c :: gap) cs) reads

/-- In front of items a gap can stand. -/
theorem Reads.behind_gap (reads : Reads level (dropGap .outside cs) items stop) :
    ∃ gap, Reads level cs (gapItems gap ++ items) stop := by
  obtain ⟨gap, whole, -⟩ := cut_gap .outside cs
  have behind := @Reads.behind _ _ _ _ gap (by rw [whole]) reads
  exact ⟨gap, whole ▸ behind⟩

theorem bare_of_cut (here : (cut cs (dropGap .outside cs)).1 = []) : dropGap .outside cs = cs := by
  obtain ⟨gap, whole, parts⟩ := cut_gap .outside cs
  rw [parts] at here
  obtain rfl : gap = [] := here
  exact whole

/-- The items behind the gap that a text may begin with. -/
theorem Reads.past_gap (reads : Reads level cs items stop) (ends : Stops level stop final) :
    ∃ gap more, items = gapItems gap ++ more ∧ Reads level (dropGap .outside cs) more stop := by
  cases reads with
  | nil =>
    refine ⟨[], [], rfl, ?_⟩
    rw [bare_of_cut]
    · exact .nil
    · cases ends with
      | sheet => rfl
      | block => rw [cut_closing]
  | @gap _ _ blanks rest _ c items cutting more =>
    obtain ⟨gap, whole, parts⟩ := cut_gap .outside cs
    rw [parts] at cutting
    cases cutting
    exact ⟨c :: blanks, items, rfl, more⟩
  | plain here found more => exact ⟨[], _, rfl, (bare_of_cut here.1).symm ▸ .plain here found more⟩
  | block here none found inside more =>
    exact ⟨[], _, rfl, (bare_of_cut here.1).symm ▸ .block here none found inside more⟩

/-- A declaration that a text begins with is the first one of its items. -/
theorem Reads.of_declaration {d : DeclarationItem} (read : readDeclaration true cs = some (d, rest))
    (more : Reads .block rest items stop) : Reads .block cs (.declaration d :: items) stop := by
  obtain ⟨body, last, named, split, -⟩ := readDeclaration_iff.mp read
  obtain ⟨filled, chars⟩ := dropName_chars (split ▸ named)
  obtain ⟨c, name, first⟩ := List.exists_cons_of_ne_nil filled
  have held := chars c (by rw [first]; simp)
  have other {b : Char} (bare : isNameChar b = false) : cs.head? ≠ some b := by
    rw [split, first]
    rintro ⟨⟩
    rw [bare] at held
    cases held
  refine .plain ⟨?_, ?_, other (by decide)⟩ ?_ more
  · rw [dropGap_solid (by rw [split, first]; exact @solid_of isNameChar (by decide) c held)]
    exact congrArg Prod.fst (cut_of_append [] cs)
  · rw [split, first]
    exact List.cons_ne_nil _ _
  · rw [readPlain, if_neg (other (by decide))]
    · show (readDeclaration true cs).map _ = _
      rw [read]
      rfl
    · rintro ⟨⟩

/-- With another gap in front items say the same. -/
theorem Reads.regap (reads : Reads level cs items stop) (ends : Stops level stop final)
    (same : dropGap .outside cs' = dropGap .outside cs) :
    ∃ items', Reads level cs' items' stop ∧ rowOf items' = rowOf items ∧ othersOf items' = othersOf items := by
  obtain ⟨gap, more, rfl, behind⟩ := reads.past_gap ends
  obtain ⟨gap', reads'⟩ := (same ▸ behind).behind_gap
  refine ⟨_, reads', ?_, ?_⟩
  · rw [rowOf_append, rowOf_append, rowOf_gapItems, rowOf_gapItems]
  · rw [othersOf_append, othersOf_append, othersOf_gapItems, othersOf_gapItems]

/-- A gap in front of a text is passed in front of another one as well. Of what ends the gap a line feed and the blanks
behind it may be taken along. -/
theorem gap_seam {gap v : List Char} (blank : ∀ b ∈ v, Text.isPlainBlank b = true) (lead : v = [] ∨ v.head? = some '\n')
    (drops : dropGap .outside (gap ++ (v ++ s)) = s) (filled : s ≠ []) (solid : s.head? ≠ some '\n')
    (first : v = [] ∨ s'.head? = some '\n') : dropGap .outside (gap ++ s') = dropGap .outside s' := by
  induction size : gap.length using Nat.strong_induction_on generalizing gap with
  | _ size ih =>
    obtain ⟨blanks, tail, rfl, blank', hard⟩ : ∃ blanks tail, gap = blanks ++ tail ∧
        (∀ b ∈ blanks, Text.isPlainBlank b = true) ∧ ∀ c ∈ tail.head?, Text.isPlainBlank c = false :=
      ⟨gap.takeWhile Text.isPlainBlank, gap.dropWhile Text.isPlainBlank, List.takeWhile_append_dropWhile.symm,
        fun b member => List.mem_takeWhile_imp member, fun c first => by
          have last := List.head?_dropWhile_not Text.isPlainBlank gap
          rw [first] at last
          exact last⟩
    rw [List.append_assoc, dropGap_blanks .outside blank'] at drops ⊢
    cases tail with
    | nil => rfl
    | cons c tail =>
      have near (s : List Char) : (c :: tail ++ s).dropWhile Text.isPlainBlank = c :: tail ++ s :=
        List.dropWhile_cons_of_neg (by simp [hard c rfl])
      rw [dropGap_step, near] at drops ⊢
      cases comment : dropComment .outside (c :: tail ++ (v ++ s)) with
      | none =>
        rw [comment] at drops
        have := congrArg List.length drops
        simp only [List.length_append, List.length_cons] at this
        omega
      | some r =>
        rw [comment] at drops
        have long : s.length ≤ r.length := by
          rw [← drops]
          exact (takes_dropGap taking_all .outside r).length_le
        obtain ⟨y, suffix, rfl, comment'⟩ := @dropComment_seam s s' tail .outside v r c (fun _ => rfl) blank lead comment
          long fun _ => ⟨List.append_ne_nil_of_right_ne_nil v filled, fun feed => by
            rcases first with rfl | feed'
            · exact absurd feed solid
            · exact feed'⟩
        rw [comment']
        have := suffix.length_le
        exact ih y.length (by simp only [List.length_append, List.length_cons] at size; omega) drops rfl

/-! ### The inside of a rule -/

/-- The inside of a rule is read in the text of the sheet, and its declarations stand among the items. -/
structure Rule.Holds (cs : List Char) (rule : Rule) (inner : List Item) : Prop where
  reads : Reads .block (cs.drop rule.innerStart) inner (cs.drop rule.closing)
  declared : rule.declarations = placedFrom rule.innerStart inner

/-- The rules among items that are read hold their declarations. -/
theorem Reads.holds (reads : Reads level cs items stop) (container : Option AtRule) (front : List Char)
    (member : rule ∈ rulesFrom container front.length items) : ∃ inner, rule.Holds (front ++ cs) inner := by
  induction reads generalizing container front with
  | nil => cases member
  | @gap level cs blanks rest stop c items cutting more ih =>
    have whole := cut_append cs (dropGap .outside cs)
    rw [cutting] at whole
    rw [rulesFrom, rulesOf, List.nil_append, Item.text, ← List.length_append] at member
    have later := ih container _ member
    rwa [List.append_assoc, whole] at later
  | @plain level cs rest stop item items here found more ih =>
    rw [rulesFrom, rulesOf_of_readPlain found, List.nil_append, ← List.length_append] at member
    have later := ih container _ member
    rwa [List.append_assoc, readPlain_text _ _ _ _ found] at later
  | @block level cs head gap start rest stop kind inner items here none found inside more ihInner ih =>
    have whole := readHead_text _ _ _ _ _ _ found
    have body := inside.text
    rw [rulesFrom, rulesOf, List.mem_append, List.mem_append] at member
    have offset : front.length + head.length + gap.length + 1 = (front ++ head ++ gap ++ ['{']).length := by
      simp [Nat.add_assoc]
    have split : front ++ cs = front ++ head ++ gap ++ ['{'] ++ start := by
      rw [← whole]
      simp
    rcases member with (own | nested) | later
    · split at own
      · rename_i isRule
        subst isRule
        obtain rfl := List.mem_singleton.mp own
        refine ⟨inner, ?_, rfl⟩
        rw [placeRule]
        dsimp only
        rw [offset, ← List.length_append, split, List.drop_left, ← body, ← List.append_assoc, List.drop_left, body]
        exact inside
      · cases own
    · rw [offset] at nested
      have deeper := ihInner _ _ nested
      rwa [← split] at deeper
    · rw [← List.length_append] at later
      have behind := ih container _ later
      rw [← whole, ← body]
      simpa [Item.text] using behind

theorem holds_of_sound (sound : sheet.hasError = false) (member : rule ∈ sheet.rules) :
    ∃ inner, rule.Holds sheet.source inner := by
  obtain ⟨items, parsed, -⟩ := (hasError_eq_false sheet).mp sound
  rw [rules_of_parse parsed] at member
  obtain ⟨mark, body, read, cutting, rfl, reads⟩ := parse_eq_some_iff.mp parsed
  have whole := cut_append sheet.source (withoutMark sheet.source)
  rw [cutting] at whole
  have placed : rule ∈ rulesFrom none mark.length read := by
    cases mark with
    | nil => exact member
    | cons c mark => simpa [gapItems, rulesFrom, rulesOf, Item.text] using member
  have holds := reads.holds none mark placed
  rwa [whole] at holds

/-- The brace that closes a rule ends its items. -/
theorem closes_of_sound (sound : sheet.hasError = false) (member : rule ∈ sheet.rules) :
    ∃ rest, Stops .block (sheet.source.drop rule.closing) rest := by
  obtain ⟨rest, closes⟩ := drop_closing sound member
  exact ⟨rest, closes ▸ .block (by decide)⟩

/-- A declaration of a rule is read where it stands. -/
structure Stated (cs : List Char) (rule : Rule) (p : Placed) (early : List Item) (d : DeclarationItem)
    (late : List Item) : Prop where
  early : Reads .block (cs.drop rule.innerStart) early (cs.drop p.start)
  here : AtItem (cs.drop p.start)
  read : readDeclaration true (cs.drop p.start) = some (d, cs.drop p.stop)
  late : Reads .block (cs.drop p.stop) late (cs.drop rule.closing)
  placed : p = placeDeclaration p.start d

theorem Rule.Holds.stated {front behind : List Placed} (holds : rule.Holds cs inner)
    (split : rule.declarations = front ++ p :: behind) :
    ∃ early d late, Stated cs rule p early d late ∧ rowOf late = behind.map Placed.entry := by
  obtain ⟨reads, declared⟩ := holds
  obtain ⟨early, d, late, rfl, rfl, place, rfl⟩ := placedFrom_split (declared.symm.trans split)
  obtain ⟨middle, rest, before, here, read, after⟩ := reads.declaration
  have text := before.text
  have text' := readDeclaration_text _ _ _ _ read
  obtain rfl : middle = cs.drop p.start := by
    rw [place, placeDeclaration, ← List.drop_drop, ← text, List.drop_left]
  obtain rfl : rest = cs.drop p.stop := by
    rw [show p.stop = p.start + d.text.length by rw [place]; rfl, ← List.drop_drop, ← text', List.drop_left]
  refine ⟨early, d, late, ⟨before, here, read, after, ?_⟩, (rowOf_placedFrom _ _).symm⟩
  rw [place]
  rfl

/-! ### Behind what is read as before -/

/-- Both texts are read the same up to a place in the rule of a number: the items and heads of blocks up to the brace
that opens it, and the items from there on. -/
structure Undisturbed (sheet after : Sheet) (rule : Rule) (index place : Nat) : Prop where
  front : UpTo (sheet.source.drop rule.innerStart) (after.source.drop rule.innerStart) index .sheet
    (withoutMark sheet.source) (withoutMark after.source)
  items : ∃ front, Reads .block (sheet.source.drop rule.innerStart) front (sheet.source.drop place) ∧
    Reads .block (after.source.drop rule.innerStart) front (after.source.drop place)

theorem Lands.congr {change change' : List Entry → List Entry} (there : sheet.rules[index]? = some rule)
    (same : change rule.outline.entries = change' rule.outline.entries) (lands : Lands sheet after index change) :
    Lands sheet after index change' := by
  have here : sheet.outline[index]? = some rule.outline := by simp [outline, there]
  rw [Lands] at lands ⊢
  rw [lands]
  refine List.ext_getElem? fun place => ?_
  rw [List.getElem?_modify, List.getElem?_modify]
  by_cases at_ : index = place
  · subst at_
    rw [here]
    simp [same]
  · simp [at_]

/-- An edit that changes the row of the items behind an undisturbed place, and no other items but gaps, lands in the
rule. -/
theorem Undisturbed.lands {mid mid' : List Char} {behind behind' : List Item} {change : List Entry → List Entry}
    (undisturbed : Undisturbed sheet after rule index place) (sound : sheet.hasError = false)
    (there : sheet.rules[index]? = some rule) (spliced : Spliced sheet rule after)
    (gap : dropGap .outside (sheet.source.drop place) = dropGap .outside mid)
    (gap' : dropGap .outside (after.source.drop place) = dropGap .outside mid')
    (old : Reads .block mid behind (sheet.source.drop rule.closing))
    (new : Reads .block mid' behind' (sheet.source.drop rule.closing)) (others : othersOf behind' = othersOf behind)
    (row : ∀ row, row ++ rowOf behind = rule.outline.entries → row ++ rowOf behind' = change rule.outline.entries) :
    after.hasError = false ∧ Lands sheet after index change := by
  obtain ⟨upTo, front, reads, reads'⟩ := undisturbed
  have member := List.mem_of_getElem? there
  obtain ⟨inner, within, declared⟩ := holds_of_sound sound member
  obtain ⟨rest, ends⟩ := closes_of_sound sound member
  obtain ⟨tail, old, same, alike⟩ := old.regap ends gap
  obtain ⟨tail', new, same', alike'⟩ := new.regap ends gap'
  obtain ⟨rfl, -⟩ := within.unique ends (reads.append old) ends
  have entries : rowOf front ++ rowOf behind = rule.outline.entries := by
    rw [← same, ← rowOf_append, ← rowOf_placedFrom rule.innerStart, ← declared]
    rfl
  have alters : Alters sheet after index fun _ row => row = change rule.outline.entries := by
    refine (alters_iff sound there spliced).mpr ⟨upTo, _, _, within, reads'.append new, ?_, ?_⟩
    · rw [rowOf_append, same']
      exact row _ entries
    · rw [othersOf_append, othersOf_append, alike, alike', others]
  obtain ⟨_, rfl, lands⟩ := alters.lands there
  obtain ⟨_, items', -, parsed, -⟩ := alters
  exact ⟨(hasError_eq_false after).mpr ⟨items', parsed, textOf_parse _ _ parsed⟩, Lands.congr there (by rfl) lands⟩

/-! ### The text of an edit -/

/-- What stands behind a place in front of a splice. -/
theorem splice_drop {first last : Nat} {new front old behind : List Char} (size : place ≤ sheet.source.length)
    (split : sheet.source.drop place = front ++ (old ++ behind)) (begins : first = place + front.length)
    (ends : last = first + old.length) :
    (sheet.splice first last new).source.drop place = front ++ (new ++ behind) := by
  have whole := List.take_append_drop place sheet.source
  have length : (sheet.source.take place).length = place := List.length_take_of_le size
  rw [split] at whole
  have early : sheet.source.take first = sheet.source.take place ++ front := by
    conv => lhs; rw [← whole, ← List.append_assoc]
    exact List.take_left' (by rw [List.length_append, length, begins])
  have late : sheet.source.drop last = behind := by
    conv => lhs; rw [← whole, ← List.append_assoc, ← List.append_assoc]
    exact List.drop_left' (by rw [List.length_append, List.length_append, length, ends, begins])
  rw [splice, ofChars, early, late]
  simp only [List.append_assoc]
  exact List.drop_left' length

/-- Between a place and an offset stands nothing but a gap. -/
def GapTo (cs : List Char) (place offset : Nat) : Prop := dropGap .outside (cs.drop place) = cs.drop offset

/-- The gap between a place and an offset, which any text may follow. -/
theorem GapTo.split {offset : Nat} (gapTo : GapTo cs place offset) (inside : offset < cs.length)
    (solid : (cs.drop offset).head? ≠ some '\n') : ∃ gap, cs.drop place = gap ++ cs.drop offset ∧
      offset = place + gap.length ∧ place ≤ cs.length ∧
        ∀ s, dropGap .outside (gap ++ s) = dropGap .outside s := by
  obtain ⟨gap, whole, -⟩ := cut_gap .outside (cs.drop place)
  rw [gapTo] at whole
  have sizes := congrArg List.length whole
  rw [List.length_append, List.length_drop, List.length_drop] at sizes
  have filled : cs.drop offset ≠ [] := by
    rw [ne_eq, List.drop_eq_nil_iff]
    omega
  have drops : dropGap .outside (gap ++ ([] ++ cs.drop offset)) = cs.drop offset := by
    rw [List.nil_append, whole]
    exact gapTo
  exact ⟨gap, whole.symm, by omega, by omega, fun s =>
    @gap_seam _ s gap [] (by simp) (.inl rfl) drops filled solid (.inl rfl)⟩

end Retouch.Sheet
