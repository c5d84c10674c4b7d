import Retouch.Proofs.Sheet.Reading
import Retouch.Proofs.Sheet.Entries
import Retouch.Proofs.Sheet.Taken
import Mathlib.Data.List.TakeWhile

/-!
# Where the rules of a sheet stand

A rule stands in the text of its sheet from its selectors on up to and with the brace that closes it, and its
declarations stand between its braces. An edit of a declaration replaces a part of the text between the braces,
a declaration that takes its line along included: the line holds no brace.

## Main statements

* `embraced_of_sound`: each rule of a sheet without errors stands so in the text.
* `set_spliced` and `removePlaced_spliced`: what an edit of a rule replaces lies in the rule.
-/
namespace Retouch.Sheet

variable {cs rest final front : List Char} {level : Level} {items : List Item} {offset : Nat} {rule : Rule}
  {p : Placed} {sheet after : Sheet} {property value : String}

/-- A declaration stands between two offsets, and its value in it. -/
structure Placed.Lies (p : Placed) (first last : Nat) : Prop where
  begins : first ≤ p.start
  value : p.start ≤ p.valueStart
  ordered : p.valueStart ≤ p.valueStop
  mark : p.valueStop ≤ p.stop
  ends : p.stop ≤ last

/-- A rule stands in a text with its braces, with its declarations between them, and begins with no line
feed. -/
structure Rule.Embraced (cs : List Char) (rule : Rule) : Prop where
  begins : cs[rule.start]? ≠ some '\n'
  heads : rule.start ≤ rule.opening
  opens : cs[rule.opening]? = some '\x7b'
  inner : rule.opening < rule.innerStart
  filled : rule.innerStart ≤ rule.closing
  closes : cs[rule.closing]? = some '\x7d'
  declared : ∀ p ∈ rule.declarations, p.Lies rule.innerStart rule.closing

/-! ### Rules of a sheet without errors -/

theorem Placed.Lies.mono {first last first' last' : Nat} (lies : p.Lies first last) (before : first' ≤ first)
    (behind : last ≤ last') : p.Lies first' last' :=
  ⟨Nat.le_trans before lies.begins, lies.value, lies.ordered, lies.mark, Nat.le_trans lies.ends behind⟩

theorem lies_placeDeclaration (offset : Nat) (d : DeclarationItem) :
    (placeDeclaration offset d).Lies offset (offset + d.text.length) := by
  unfold placeDeclaration
  constructor <;> simp [DeclarationItem.text] <;> omega

/-- The declarations among items stand in their text. -/
theorem lies_of_placedFrom (member : p ∈ placedFrom offset items) :
    p.Lies offset (offset + (textOf items).length) := by
  induction items generalizing offset with
  | nil => simp [placedFrom] at member
  | cons item rest ih =>
    have later (member : p ∈ placedFrom (offset + item.text.length) rest) :
        p.Lies offset (offset + (textOf (item :: rest)).length) := by
      refine (ih member).mono (Nat.le_add_right _ _) ?_
      rw [textOf, List.length_append]
      omega
    cases item with
    | declaration d =>
      rcases List.mem_cons.mp member with rfl | there
      · refine (lies_placeDeclaration offset d).mono (Nat.le_refl _) ?_
        rw [textOf, Item.text, List.length_append]
        omega
      · exact later there
    | gap text => exact later member
    | statement text => exact later member
    | block kind head gap inner => exact later member

/-- An item that is not a gap begins with no blank. -/
theorem AtItem.solid (here : AtItem cs) {c : Char} (first : cs.head? = some c) : Text.isPlainBlank c = false := by
  rw [Bool.eq_false_iff]
  intro blank
  obtain ⟨rest, rfl⟩ : ∃ rest, cs = c :: rest := by
    cases cs with
    | nil => cases first
    | cons d rest => exact ⟨rest, by rw [Option.some.inj first]⟩
  obtain ⟨none, -, -⟩ := here
  have shorter : (dropGap .outside (c :: rest)).length < (c :: rest).length := by
    have gap : (List.head? (c :: rest)).any beginsGap = true := by simp [beginsGap, blank]
    rw [dropGap, if_pos gap]
    refine Nat.lt_of_le_of_lt ?_ (Nat.lt_succ_self rest.length)
    -- The blank is dropped before any comment is looked for.
    have dropped : dropGapWithin .outside ((c :: rest).length + 1) (c :: rest) =
        dropGapWithin .outside ((c :: rest).length + 1) rest := by
      unfold dropGapWithin
      rw [List.dropWhile_cons_of_pos blank]
    rw [dropped]
    exact (takes_dropGapWithin taking_all _ _).length_le
  rw [cut, List.splitAt_eq] at none
  have := congrArg List.length none
  simp only [List.length_take, List.length_nil] at this
  omega

/-- The rules among items that are read stand in the text. -/
theorem Reads.embraced (reads : Reads level cs items final) (container : Option AtRule) (front : List Char)
    (member : rule ∈ rulesFrom container front.length items) : rule.Embraced (front ++ cs) := by
  induction reads generalizing container front with
  | nil => simp [rulesFrom] at member
  | @gap _ cs blanks rest _ c items cutting more ih =>
    have whole := cut_append cs (dropGap .outside cs)
    rw [cutting] at whole
    rw [rulesFrom, rulesOf, List.nil_append, Item.text, ← List.length_append] at member
    have later := ih container _ member
    rwa [List.append_assoc, whole] at later
  | @plain level cs rest _ item items here found more ih =>
    have whole := readPlain_text _ _ _ _ found
    have none : rulesOf container front.length item = [] := by
      unfold readPlain at found
      split at found
      · cases found
      · split at found
        · obtain ⟨_, -, same⟩ := Option.map_eq_some_iff.mp found
          cases same
          rfl
        · obtain ⟨_, -, same⟩ := Option.map_eq_some_iff.mp found
          cases same
          rfl
    rw [rulesFrom, none, List.nil_append, ← List.length_append] at member
    have later := ih container _ member
    rwa [List.append_assoc, whole] at later
  | @block level cs head gap start rest _ kind inner items here none found inside more insideIh ih =>
    have whole := readHead_text _ _ _ _ _ _ found
    have body := inside.text
    -- The text of the rule, cut at its braces.
    have split : front ++ cs = front ++ head ++ gap ++ '\x7b' :: (textOf inner ++ '\x7d' :: rest) := by
      rw [← whole, ← body]
      simp
    rw [rulesFrom, rulesOf] at member
    simp only [List.mem_append] at member
    rcases member with (own | nested) | later
    · split at own
      · obtain rfl := List.mem_singleton.mp own
        refine ⟨?_, ?_, ?_, Nat.lt_succ_self _, Nat.le_add_right _ _, ?_, fun p declared => ?_⟩
        · intro feed
          have first : cs.head? = some '\n' := by
            simpa [placeRule, List.getElem?_append_right, List.head?_eq_getElem?] using feed
          cases here.solid first
        · simp only [placeRule]
          omega
        · have opening : (placeRule container front.length head gap inner).opening =
              (front ++ head ++ gap).length := by
            simp [placeRule, Nat.add_assoc]
          rw [opening, split, List.getElem?_append_right (Nat.le_refl _), Nat.sub_self]
          rfl
        · have closing : (placeRule container front.length head gap inner).closing =
              (front ++ head ++ gap ++ '\x7b' :: textOf inner).length := by
            simp only [placeRule, List.length_append, List.length_cons]
            omega
          have split' : front ++ cs = (front ++ head ++ gap ++ '\x7b' :: textOf inner) ++ '\x7d' :: rest := by
            rw [split]
            simp
          rw [closing, split', List.getElem?_append_right (Nat.le_refl _), Nat.sub_self]
          rfl
        · exact lies_of_placedFrom declared
      · simp at own
    · have offset : front.length + head.length + gap.length + 1 = (front ++ head ++ gap ++ ['\x7b']).length := by
        simp [Nat.add_assoc]
      rw [offset] at nested
      have deeper := insideIh _ _ nested
      rw [← body] at deeper
      rw [split]
      simpa using deeper
    · have offset : front.length + (Item.block kind head gap inner).text.length =
          (front ++ (Item.block kind head gap inner).text).length := by
        rw [List.length_append]
      rw [offset] at later
      have behind := ih container _ later
      rw [split]
      simpa [Item.text] using behind

/-- Each rule of a sheet without errors stands in the text of the sheet. -/
theorem embraced_of_sound (sound : sheet.hasError = false) (member : rule ∈ sheet.rules) :
    rule.Embraced sheet.source := by
  obtain ⟨items, parsed, -⟩ := (hasError_eq_false sheet).mp sound
  have rules : sheet.rules = rulesFrom none 0 items := by
    rw [Sheet.rules, sheet.read, Content.ofChars, parsed]
    rfl
  rw [rules] at member
  obtain ⟨mark, body, read, cutting, rfl, reads⟩ := parse_eq_some_iff.mp parsed
  have whole := cut_append sheet.source (withoutMark sheet.source)
  rw [cutting] at whole
  rw [← whole]
  refine reads.embraced none mark ?_
  cases mark with
  | nil => simpa [gapItems] using member
  | cons c mark => simpa [gapItems, rulesFrom, rulesOf, Item.text] using member

/-! ### Edits of a rule -/

/-- The offset behind the brace that closes the rule. -/
def Rule.stop (rule : Rule) : Nat := rule.closing + 1

/-- A sheet with another text in the place of a part of what stands between the braces of a rule. -/
def Spliced (sheet : Sheet) (rule : Rule) (after : Sheet) : Prop :=
  ∃ first last new, after = sheet.splice first last new ∧ rule.opening < first ∧ first ≤ last ∧ last ≤ rule.closing

theorem append_spliced (embraced : rule.Embraced sheet.source) (property value : String) :
    Spliced sheet rule (sheet.append rule property value) := by
  have inner := embraced.inner
  have filled := embraced.filled
  unfold append
  dsimp only
  split
  · rename_i last found
    obtain ⟨begins, value, ordered, mark, ends⟩ := embraced.declared last (List.mem_of_getLast? found)
    split
    · exact ⟨last.stop, last.stop, _, rfl, by omega, Nat.le_refl _, ends⟩
    · exact ⟨last.stop, last.stop, _, rfl, by omega, Nat.le_refl _, ends⟩
  · split
    · exact ⟨rule.innerStart, rule.closing, _, rfl, inner, filled, Nat.le_refl _⟩
    · exact ⟨rule.closing, rule.closing, _, rfl, by omega, Nat.le_refl _, Nat.le_refl _⟩

theorem declaration?_member (found : rule.declaration? property = some p) : p ∈ rule.declarations :=
  List.mem_of_find?_eq_some found

/-- What is replaced when a property is set lies in the rule. -/
theorem set_spliced (embraced : rule.Embraced sheet.source) (property value : String) :
    Spliced sheet rule (sheet.set rule property value) := by
  have inner := embraced.inner
  unfold set
  split
  · exact append_spliced embraced property value
  · rename_i p found
    obtain ⟨begins, value, ordered, mark, ends⟩ := embraced.declared p (declaration?_member found)
    exact ⟨p.valueStart, p.valueStop, _, rfl, by omega, ordered, by omega⟩

theorem mem_between {offset start stop : Nat} {c : Char} (there : cs[offset]? = some c) (begins : start ≤ offset)
    (ends : offset < stop) : c ∈ between cs start stop := by
  have found : (between cs start stop)[offset - start]? = some c := by
    rw [between, List.getElem?_drop, Nat.add_sub_cancel' begins, List.getElem?_take, if_pos ends, there]
  exact List.mem_of_getElem? found

/-- A run of characters ends before one that does not belong to it. -/
theorem takeWhile_stops {holds : Char → Bool} {offset closing : Nat} {c : Char} (there : cs[closing]? = some c)
    (other : holds c = false) (before : offset ≤ closing) :
    offset + ((cs.drop offset).takeWhile holds).length ≤ closing := by
  refine Nat.le_of_not_lt fun more => ?_
  have inside : closing - offset < ((cs.drop offset).takeWhile holds).length := by omega
  have found : ((cs.drop offset).takeWhile holds)[closing - offset]? = some c := by
    have whole : (cs.drop offset)[closing - offset]? = some c := by
      rw [List.getElem?_drop, Nat.add_sub_cancel' before, there]
    rwa [← List.takeWhile_append_dropWhile (p := holds) (l := cs.drop offset),
      List.getElem?_append_left inside] at whole
  rw [List.mem_takeWhile_imp (List.mem_of_getElem? found)] at other
  cases other

/-- On the way to the end of a blank line there is no brace, and none ends it. -/
theorem lineStop_lt {offset closing : Nat} (closes : cs[closing]? = some '\x7d') (before : offset ≤ closing)
    (blank : (between cs offset (lineStop cs offset)).all Text.isPlainBlank = true) : lineStop cs offset < closing := by
  rcases Nat.lt_trichotomy (lineStop cs offset) closing with less | same | more
  · exact less
  · -- The line would end at the brace, which is no line feed.
    have behind : (cs.drop offset).dropWhile (fun c => decide (c ≠ '\n')) = cs.drop closing := by
      have parts := List.takeWhile_append_dropWhile (p := fun c => decide (c ≠ '\n')) (l := cs.drop offset)
      rw [← same, lineStop, ← List.drop_drop]
      exact .trans (.symm List.drop_left) (congrArg _ parts)
    have first : (cs.drop closing).head? = some '\x7d' := by
      rw [List.head?_drop, closes]
    have ends := List.head?_dropWhile_not (fun c => decide (c ≠ '\n')) (cs.drop offset)
    rw [behind, first] at ends
    exact absurd ends (by decide)
  · have brace := List.all_eq_true.mp blank _ (mem_between closes before more)
    exact absurd brace (by decide)

/-- What is removed with a declaration lies in the rule. -/
theorem removePlaced_spliced (embraced : rule.Embraced sheet.source) (member : p ∈ rule.declarations) :
    Spliced sheet rule (sheet.removePlaced p) := by
  have inner := embraced.inner
  obtain ⟨begins, value, ordered, mark, ends⟩ := embraced.declared p member
  unfold removePlaced
  dsimp only
  split
  · rename_i own
    simp only [Bool.and_eq_true] at own
    have last := lineStop_lt embraced.closes ends own.2
    have size : rule.closing < sheet.source.length := (List.getElem?_eq_some_iff.mp embraced.closes).1
    refine ⟨_, _, _, rfl, ?_, ?_, by omega⟩
    · -- Otherwise the brace that opens the rule would be one of the blanks in front.
      refine Nat.lt_of_not_le fun opening => ?_
      have brace := List.all_eq_true.mp own.1 _ (mem_between embraced.opens opening (by omega))
      exact absurd brace (by decide)
    · have first : lineStart sheet.source p.start ≤ p.start := Nat.sub_le _ _
      have behind : p.stop ≤ lineStop sheet.source p.stop := Nat.le_add_right _ _
      omega
  · exact ⟨p.start, _, _, rfl, by omega, by omega, takeWhile_stops embraced.closes (by decide) ends⟩

theorem take_between {start first : Nat} (order : start ≤ first) :
    cs.take start ++ between cs start first = cs.take first := by
  have parts := List.take_append_drop start (cs.take first)
  rwa [List.take_take, Nat.min_eq_left order] at parts

theorem between_drop {last stop : Nat} (order : last ≤ stop) (size : stop ≤ cs.length) :
    between cs last stop ++ cs.drop stop = cs.drop last := by
  have cut : last ≤ (cs.take stop).length := by
    rw [List.length_take]
    omega
  have parts : (cs.take stop ++ cs.drop stop).drop last = (cs.take stop).drop last ++ cs.drop stop :=
    List.drop_append_of_le_length cut
  rw [List.take_append_drop] at parts
  exact parts.symm

theorem head?_between {start first : Nat} (order : start < first) : (between cs start first).head? = cs[start]? := by
  rw [between, List.head?_drop, List.getElem?_take, if_pos order]

theorem getLast?_between {last stop : Nat} {c : Char} (order : last ≤ stop) (there : cs[stop]? = some c) :
    (between cs last (stop + 1)).getLast? = some c := by
  have size : stop < cs.length := (List.getElem?_eq_some_iff.mp there).1
  rw [between, List.getLast?_drop, if_neg (by rw [List.length_take]; omega), List.getLast?_take, if_neg (by omega),
    Nat.add_sub_cancel, there]
  rfl

/-- The text of a sheet after an edit of a rule: between what stands in front of the rule and behind it there is
a text that begins with no line feed and ends with the brace. -/
theorem Spliced.source (spliced : Spliced sheet rule after) (embraced : rule.Embraced sheet.source) :
    ∃ inner, after.source = sheet.source.take rule.start ++ inner ++ sheet.source.drop rule.stop ∧
      inner.head? ≠ some '\n' ∧ inner.getLast? = some '\x7d' := by
  obtain ⟨first, last, new, rfl, opens, order, closes⟩ := spliced
  have heads := embraced.heads
  have size : rule.closing < sheet.source.length := (List.getElem?_eq_some_iff.mp embraced.closes).1
  refine ⟨between sheet.source rule.start first ++ new ++ between sheet.source last rule.stop, ?_, ?_, ?_⟩
  · rw [splice, ofChars, ← take_between (Nat.le_of_lt (Nat.lt_of_le_of_lt heads opens)),
      ← between_drop (Nat.le_succ_of_le closes) size]
    simp [Rule.stop]
  · have front : (between sheet.source rule.start first).head? = sheet.source[rule.start]? :=
      head?_between (Nat.lt_of_le_of_lt heads opens)
    have begins := embraced.begins
    have there : rule.start < sheet.source.length := by omega
    rw [List.getElem?_eq_getElem there] at front begins
    rw [List.append_assoc, List.head?_append, front]
    exact begins
  · rw [List.getLast?_append, Rule.stop, getLast?_between closes embraced.closes]
    rfl

/-! ### Verified edits -/

variable {selector : String} {prior new : Style.Value} {α : Type}

theorem setRecorded_spliced {index : Nat} {recorded : List Style.Value} {answer a : α}
    (embraced : rule.Embraced sheet.source)
    (done : (sheet.setRecorded rule index property new recorded answer).result = .ok a) :
    Spliced sheet rule (sheet.setRecorded rule index property new recorded answer).sheet := by
  rcases outcome : sheet.setRecorded rule index property new recorded answer with ⟨after, result⟩
  rw [outcome] at done
  obtain rfl : result = .ok a := done
  obtain ⟨text, -, rfl, -⟩ := setRecorded_eq_ok.mp outcome
  exact set_spliced embraced property text

/-- An edit that is made has found a rule, and replaces a part of it. -/
def Replaces (sheet : Sheet) (selector : String) (outcome : Outcome α) : Prop :=
  ∀ a, outcome.result = .ok a → ∃ rule index, sheet.resolve selector none = .ok (rule, index) ∧
    (rule.Embraced sheet.source → Spliced sheet rule outcome.sheet)

theorem updateDeclaration_replaces (sheet : Sheet) (selector property : String) (prior new : Style.Value) :
    Replaces sheet selector (sheet.updateDeclaration selector property prior new none) := by
  intro a done
  unfold updateDeclaration at done ⊢
  rcases found : sheet.resolve selector none with e | ⟨rule, index⟩
  · rw [found] at done
    cases done
  · rw [found] at done
    refine ⟨rule, index, rfl, fun embraced => ?_⟩
    dsimp only at done ⊢
    cases checked : checkPrior rule property prior with
    | error e =>
      rw [checked] at done
      cases done
    | ok previous =>
      rw [checked] at done
      exact setRecorded_spliced embraced done

theorem addDeclaration_replaces (sheet : Sheet) (selector property : String) (prior : Option Style.Value)
    (new : Style.Value) : Replaces sheet selector (sheet.addDeclaration selector property new prior none) := by
  intro a done
  unfold addDeclaration at done ⊢
  rcases found : sheet.resolve selector none with e | ⟨rule, index⟩
  · rw [found] at done
    cases done
  · rw [found] at done
    refine ⟨rule, index, rfl, fun embraced => ?_⟩
    dsimp only at done ⊢
    cases prior with
    | none => exact setRecorded_spliced embraced done
    | some prior =>
      dsimp only at done ⊢
      cases checked : checkPrior rule property prior with
      | error e =>
        rw [checked] at done
        cases done
      | ok previous =>
        rw [checked] at done
        exact setRecorded_spliced embraced done

theorem deleteDeclaration_replaces (sheet : Sheet) (selector property : String) (prior : Style.Value) :
    Replaces sheet selector (sheet.deleteDeclaration selector property prior none) := by
  intro a done
  unfold deleteDeclaration at done ⊢
  rcases found : sheet.resolve selector none with e | ⟨rule, index⟩
  · rw [found] at done
    cases done
  · rw [found] at done
    refine ⟨rule, index, rfl, fun embraced => ?_⟩
    dsimp only at done ⊢
    cases checked : checkPrior rule property prior with
    | error e =>
      rw [checked] at done
      cases done
    | ok previous =>
      -- The declaration is there, since its value was checked.
      obtain ⟨p, there, -⟩ := Option.map_eq_some_iff.mp (checkPrior_eq_ok.mp checked).1
      dsimp only
      rw [remove?, there]
      exact removePlaced_spliced embraced (declaration?_member there)

end Retouch.Sheet
