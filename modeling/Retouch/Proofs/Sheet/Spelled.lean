import Retouch.Proofs.Sheet.Declared
import Retouch.Proofs.Sheet.Inside

/-!
# Declarations with other values

A value that is read as one between a name and a semicolon is read as such in any declaration that it is written into.
A property and a value are plain when a sheet with one rule and one declaration says just these.

## Main statements

* `readDeclaration_put`: a declaration with another value is read as the same one with this value.
* `readDeclaration_close`: so is one that gets its semicolon.
* `Stands.spelled`: what the only declaration of the sheet of a plain value is read as.
-/
namespace Retouch.Sheet

section Spelling

variable {s core s' core' cs rest value mark last body lead trail : List Char} {ended : Bool}

/-! ### Values between blanks -/

theorem dropGap_blanks (spot : Spot) (blank : ∀ b ∈ lead, Text.isPlainBlank b = true) (cs : List Char) :
    dropGap spot (lead ++ cs) = dropGap spot cs := by
  rw [dropGap_step, List.dropWhile_append_of_pos blank, ← dropGap_step]

/-- Blanks can stand in front of what stands behind a value. -/
theorem Edge.behind_blanks (edge : Edge s core) (blank : ∀ b ∈ trail, Text.isPlainBlank b = true) :
    Edge (trail ++ s) core := by
  refine ⟨?_, by rw [dropGap_blanks .single blank, edge.gap], edge.ends⟩
  intro c first
  cases trail with
  | nil => exact edge.quiet c first
  | cons b trail =>
    cases first
    exact plainBlank_mem (blank _ (by simp))

section Edges

variable (edge : Edge s core) (edge' : Edge s' core')

include edge edge'

/-- The values behind a colon in front of another text, between other blanks. -/
theorem values_seam {x y : List Char} {found : Option (List Char)} {lead' : List Char} (shut : Shut s' x)
    (blank : ∀ b ∈ lead, Text.isPlainBlank b = true) (blank' : ∀ b ∈ lead', Text.isPlainBlank b = true)
    (read : declared none (dropGap .value (lead ++ (x ++ s))) = some (y ++ s, found))
    (ends : dropGap .series (y ++ s) = core) (stops : Within s .series y) :
    ∃ mark, found = markBefore s mark ∧ declared none (dropGap .value (lead' ++ (x ++ s'))) =
      some ((declared (markBefore s' mark) core').getD (y ++ s', markBefore s' mark)) ∧
        dropGap .series (y ++ s') = core' := by
  rw [dropGap_blanks .value blank] at read
  rw [dropGap_blanks .value blank']
  have shorter := declared_lt read
  rw [List.length_append] at shorter
  obtain ⟨w, suffix, gap, gap'⟩ := dropGap_before edge edge' .value shut rfl (by omega)
  rw [gap] at read
  have inside : y <:+ x := by
    obtain ⟨part, whole⟩ := declared_suffix read
    rw [← List.append_assoc] at whole
    exact (List.suffix_append part y).trans (List.append_cancel_right whole ▸ suffix)
  obtain ⟨mark, found', read'⟩ := @declared_seam _ _ _ _ edge edge' _ _ none _ (shut.suffix suffix) read ends stops
  rw [gap']
  exact ⟨mark, found', read', dropGap_seam_end edge edge' (shut.suffix inside) ends stops⟩

end Edges

/-! ### Values in other declarations -/

/-- In front of `s`, which ends a declaration, the values of a text stop at `y`, and none of them is a mark. -/
structure Alone (value s y : List Char) : Prop where
  edge : Edge s s
  read : declared none (dropGap .value ([' '] ++ (value ++ s))) = some (y ++ s, none)
  ends : dropGap .series (y ++ s) = s

/-- So they do in front of any text that can stand behind a value, between other blanks. -/
theorem Alone.seam {v s y : List Char} (alone : Alone v s y) (edge : Edge s' core') (shut : Shut s' v)
    (blank : ∀ b ∈ lead, Text.isPlainBlank b = true) : declared none (dropGap .value (lead ++ (v ++ s'))) =
      some ((declared none core').getD (y ++ s', none)) ∧ dropGap .series (y ++ s') = core' := by
  obtain ⟨mark, none', read⟩ := values_seam alone.edge edge shut Text.plainBlank_space blank alone.read alone.ends
    (.inr (by rw [alone.ends]))
  cases mark with
  | none => exact read
  | some m => cases none'

theorem trim_between {cs : List Char} (blank : ∀ b ∈ lead, Text.isPlainBlank b = true)
    (blank' : ∀ b ∈ trail, Text.isPlainBlank b = true) : Text.trim (lead ++ cs ++ trail) = Text.trim cs := by
  have blank (b : Char) (member : b ∈ lead) := Text.blank_of_plainBlank (blank b member)
  have blank' (b : Char) (member : b ∈ trail) := Text.blank_of_plainBlank (blank' b member)
  have behind (cs : List Char) : Text.trimEnd (cs ++ trail) = Text.trimEnd cs := by
    unfold Text.trimEnd Text.trimEndBy
    rw [List.reverse_append, Text.dropWhile_blanks fun b member => blank' b (List.mem_reverse.mp member)]
  rw [List.append_assoc, Text.trim_blanks blank, Text.trim_eq, Text.trim_eq, List.dropWhile_append]
  split
  · rename_i none
    have all : trail.dropWhile Text.isBlank = [] := List.dropWhile_eq_nil_iff.mpr blank'
    rw [all, List.isEmpty_iff.mp none]
  · exact behind _

/-- A value that is read alone is read in the place of another one, in front of the mark of importance as well. Where no
semicolon follows, the blanks behind it are no part of it. -/
theorem BodyReads.put {v s y : List Char} (old : BodyReads body value mark last ended) (alone : Alone v s y)
    (blank : ∀ b ∈ lead, Text.isPlainBlank b = true) (blank' : ∀ b ∈ trail, Text.isPlainBlank b = true)
    (shut : Shut (trail ++ (mark ++ last)) v)
    (open_ : mark = [] → ended = false → y = [] ∧ ∃ rest, Edge last ('}' :: rest)) :
    ∃ value' gap, BodyReads (lead ++ (v ++ (trail ++ (mark ++ last)))) value' mark (gap ++ last) ended ∧
      Text.trim value' = Text.trim v ∧ (∀ b ∈ gap, Text.isPlainBlank b = true) ∧ (ended = true → gap = []) := by
  obtain ⟨-, stop, found, read, marked, ends⟩ := old
  by_cases unmarked : mark = []
  · subst unmarked
    rw [List.nil_append] at *
    cases ended with
    | true =>
      obtain ⟨-, semicolon⟩ := ends
      obtain ⟨rest, rfl⟩ := List.head?_eq_some_iff.mp semicolon
      obtain ⟨read', gap'⟩ := alone.seam (edge_of_blanks blank' rfl rest) shut blank
      rw [declared_ends (.inl rfl)] at read'
      exact ⟨lead ++ v ++ trail, [], ⟨by simp, _, _, read', rfl, gap', rfl⟩, trim_between blank blank', by simp,
        fun _ => rfl⟩
    | false =>
      obtain ⟨rfl, rest, edge⟩ := open_ rfl rfl
      obtain ⟨read', gap'⟩ := alone.seam (edge.behind_blanks blank') shut blank
      rw [declared_ends (.inr rfl)] at read'
      refine ⟨lead ++ v, trail, ⟨by simp, _, _, read', rfl, rfl, ?_⟩, ?_, blank', by simp⟩
      · rw [gap']
        rfl
      · simpa using @trim_between lead [] v blank (by simp)
  · -- The reader goes on with the mark as it did before.
    obtain rfl : found = some (mark ++ last) := by
      cases found with
      | none => exact absurd (List.append_left_eq_self.mp marked.symm) unmarked
      | some m => exact congrArg some marked
    obtain ⟨-, important, again⟩ := declared_from_mark read (by simp)
    obtain ⟨t, same⟩ := List.isPrefixOf_iff_prefix.mp important
    have first : mark ++ last = '!' :: ("important".toList ++ t) := same.symm
    have edge : Edge (trail ++ (mark ++ last)) (mark ++ last) := by
      rw [first]
      exact edge_of_blanks blank' rfl _
    obtain ⟨read', -⟩ := alone.seam edge shut blank
    rw [again] at read'
    exact ⟨lead ++ v ++ trail, [], ⟨by simp, _, _, read', rfl, ends⟩, trim_between blank blank', by simp, fun _ => rfl⟩

/-- The last declaration of a block is read in the same way when a semicolon ends it. -/
theorem BodyReads.close {core : List Char} (old : BodyReads body value mark last false) (edge : Edge last core)
    (shut : Shut (';' :: rest) (value ++ mark)) :
    BodyReads (value ++ mark ++ ';' :: rest) value mark (';' :: rest) true := by
  obtain ⟨split, stop, found, read, marked, rfl, -⟩ := old
  have semicolon : Edge (';' :: rest) (';' :: rest) := @edge_of_blanks [] _ (by simp) rfl rest
  rw [split] at read
  obtain ⟨mark', rfl, read', gap'⟩ := @values_seam _ _ _ _ [] edge semicolon _ [] _ [] shut (by simp) (by simp) read
    (edge.dropGap .series) (.inl rfl)
  rw [declared_ends (.inl rfl)] at read'
  refine ⟨rfl, _, _, read', ?_, gap', rfl⟩
  cases mark' with
  | none =>
    obtain rfl : mark = [] := List.append_left_eq_self.mp marked.symm
    rfl
  | some m =>
    obtain rfl : m = mark := List.append_cancel_right marked
    rfl

/-! ### Declarations in other texts -/

/-- What a plain property and value are read as in front of `s`, which ends the declaration. -/
structure Spelled (name value s y : List Char) : Prop where
  named : dropName name = some []
  ahead : bracesAhead (' ' :: (value ++ s)) = false
  alone : Alone value s y

theorem name_seam {name gap : List Char} (found : dropName (name ++ (gap ++ ':' :: body)) = some (gap ++ ':' :: body))
    (body' : List Char) : dropName (name ++ (gap ++ ':' :: body')) = some (gap ++ ':' :: body') := by
  refine dropName_seam_name found fun c first => dropName_bare found c ?_
  cases gap with
  | nil => exact first
  | cons b gap => exact first

/-- A declaration that is written anew. -/
theorem Spelled.declaration {name v y : List Char} (spelled : Spelled name v [';', '\x7d'] y)
    (shut : Shut (';' :: rest) v) :
    readDeclaration true (name ++ ':' :: ' ' :: (v ++ ';' :: rest)) = some (⟨name, [], ' ' :: v, [], true⟩, rest) := by
  have semicolon : Edge (';' :: rest) (';' :: rest) := @edge_of_blanks [] _ (by simp) rfl rest
  obtain ⟨read, gap⟩ := @Alone.seam _ _ [' '] _ _ _ spelled.alone semicolon shut Text.plainBlank_space
  rw [declared_ends (.inl rfl)] at read
  have named : dropName (name ++ ':' :: ' ' :: (v ++ ';' :: rest)) = some (':' :: ' ' :: (v ++ ';' :: rest)) := by
    have bare : ∀ c ∈ (':' :: ' ' :: (v ++ ';' :: rest)).head?, isNameChar c = false := by
      rintro c ⟨⟩
      decide
    rw [dropName_local bare, spelled.named]
    rfl
  have ahead : bracesAhead (' ' :: (v ++ ';' :: rest)) = false :=
    @bracesAhead_seam [';', '\x7d'] (';' :: rest) (' ' :: v) spelled.ahead rfl (by simp)
  exact readDeclaration_iff.mpr
    ⟨_, _, named, rfl, dropColon_here ahead (by simp) _, ⟨by simp, _, _, read, rfl, gap, rfl⟩, rfl⟩

/-- What stands behind a value is no brace. -/
theorem BodyReads.behind (reads : BodyReads body value mark last ended) : (mark ++ last).head? ≠ some '\x7b' := by
  obtain ⟨-, stop, found, read, marked, ends⟩ := reads
  cases found with
  | some m =>
    obtain ⟨-, important, -⟩ := declared_from_mark read (by simp)
    obtain ⟨t, rfl⟩ := List.isPrefixOf_iff_prefix.mp important
    rw [← marked]
    rintro ⟨⟩
  | none =>
    rw [← marked, Option.getD_none]
    cases ended with
    | true =>
      rw [ends.2]
      simp
    | false =>
      obtain ⟨rfl, closing⟩ := ends
      intro brace
      rw [dropGap_solid (by rw [brace]; rfl), brace] at closing
      cases closing

/-- A declaration with a plain value in the place of another one. -/
theorem readDeclaration_put {d : DeclarationItem} {name v s y : List Char}
    (old : readDeclaration true cs = some (d, rest)) (spelled : Spelled name v s y)
    (blank : ∀ b ∈ lead, Text.isPlainBlank b = true) (spaced : lead ≠ [])
    (blank' : ∀ b ∈ trail, Text.isPlainBlank b = true) {behind : List Char}
    (behind_eq : behind = d.mark ++ ((if d.ended then [';'] else []) ++ rest)) (shut : Shut (trail ++ behind) v)
    (ahead : bracesAhead behind = false)
    (open_ : d.mark = [] → d.ended = false → y = [] ∧ ∃ core, Edge rest ('}' :: core)) :
    ∃ value gap, readDeclaration true (d.name ++ (d.gap ++ ':' :: (lead ++ (v ++ (trail ++ behind))))) =
      some ({ d with value }, gap ++ rest) ∧ Text.trim value = Text.trim v ∧ ∀ b ∈ gap, Text.isPlainBlank b = true := by
  obtain ⟨body, last, named, split, colon, reads, rfl⟩ := readDeclaration_iff.mp old
  subst behind_eq
  have closing (unmarked : d.mark = []) (ended : d.ended = false) :
      y = [] ∧ ∃ core, Edge ((if d.ended then [';'] else []) ++ rest) ('}' :: core) := by
    rw [ended]
    exact open_ unmarked ended
  obtain ⟨value, gap, reads', same, blank'', ended⟩ := reads.put spelled.alone blank blank' shut closing
  obtain ⟨ahead', first⟩ := bracesAhead_blanks blank' ahead reads.behind
  have plain := spelled.ahead
  rw [← List.cons_append] at plain
  have near := bracesAhead_seam plain ahead' first
  rw [List.cons_append] at near
  simp only [bracesAhead, Bool.and_eq_false_iff, Bool.or_eq_false_iff, beq_eq_false_iff_ne] at near
  have clear := bracesAhead_blanks blank (near.resolve_left (by decide)).2 (near.resolve_left (by decide)).1
  -- Behind a blank the colon is none of a pseudo-class.
  obtain ⟨b, lead, rfl⟩ := List.exists_cons_of_ne_nil spaced
  have b_plain := blank b (by simp)
  refine ⟨value, gap, readDeclaration_iff.mpr ⟨_, gap ++ _, name_seam (split ▸ named) _, rfl,
    dropColon_seam colon ?_ ?_ ?_ ?_, reads', ?_⟩, same, blank''⟩
  · intro
    simp [beginsSimple, wideBlank_of_plain b_plain]
  · intro
    simp only [beginsPseudoClass, clear.1, Bool.and_false]
  · rintro ⟨⟩
    exact absurd b_plain (by decide)
  · simp only [List.length_append, List.length_cons]
    omega
  · cases ends : d.ended with
    | false => rfl
    | true =>
      rw [ended ends]
      rfl

/-- The last declaration of a block with a semicolon behind it. -/
theorem readDeclaration_close {d : DeclarationItem} {behind : List Char}
    (old : readDeclaration true cs = some (d, rest)) (open_ : d.ended = false) (edge : Edge rest core)
    (shut : Shut (';' :: behind) (d.value ++ d.mark)) :
    readDeclaration true (d.name ++ (d.gap ++ ':' :: (d.value ++ d.mark ++ ';' :: behind))) =
      some ({ d with ended := true }, behind) := by
  obtain ⟨body, last, named, split, colon, reads, rfl⟩ := readDeclaration_iff.mp old
  rw [open_] at reads
  obtain rfl : body = d.value ++ d.mark ++ rest := reads.split
  have filled : d.value ++ d.mark ≠ [] := by
    intro none
    obtain ⟨-, stop, found, read, -, ends, -⟩ := reads
    obtain rfl : stop = rest := ends
    have shorter := declared_lt read
    rw [none, List.nil_append] at shorter
    exact absurd shorter (Nat.not_lt.mpr (takes_dropGap taking_all .value stop).length_le)
  obtain ⟨c, text, first⟩ := List.exists_cons_of_ne_nil filled
  have same : (d.value ++ d.mark ++ ';' :: behind).head? = (d.value ++ d.mark ++ rest).head? := by
    rw [first]
    rfl
  obtain ⟨simple, pseudo⟩ := colon_congr same fun none => bracesAhead_seam none rfl (by simp)
  refine readDeclaration_iff.mpr ⟨_, _, name_seam (split ▸ named) _, rfl, dropColon_seam colon simple pseudo ?_ ?_,
    reads.close edge shut, rfl⟩
  · rw [same]
    exact dropColon_single colon
  · simp only [List.length_append, List.length_cons]
    omega

end Spelling

section Plain

variable {cs rest body ending : List Char} {property value : String} {sheet : Sheet} {items inner : List Item}

/-! ### The sheet of one declaration -/

/-- What stands behind the brace that opens the only rule of a sheet. -/
def onlyBody (ending : List Char) (property value : String) : List Char :=
  property.toList ++ ':' :: ' ' :: (value.toList ++ (ending ++ ['\x7d']))

/-- A sheet with one rule and one declaration, with `ending` behind its value. -/
def only (ending : List Char) (property value : String) : Sheet :=
  ofChars ('x' :: '\x7b' :: onlyBody ending property value)

/-- The sheet has one rule, which declares this property with this value and nothing else. -/
structure Stands (ending : List Char) (property value : String) : Prop where
  sound : (only ending property value).hasError = false
  told : ∃ rule, (only ending property value).rules = [rule] ∧
    rule.outline.entries = [⟨property.toList, value.toList, false⟩]

/-- A property and a value that are read as such. -/
def Plain (property value : String) : Prop := Stands [';'] property value

theorem heads_only (body : List Char) : Heads .sheet ('x' :: '\x7b' :: body) .rule ['x'] [] body := by
  have parts : cut ('x' :: '\x7b' :: body) ('\x7b' :: body) = (['x'], '\x7b' :: body) := cut_of_append ['x'] _
  refine ⟨⟨?_, List.cons_ne_nil _ _, fun brace => by cases brace⟩, ?_, ?_⟩
  · rw [dropGap_solid rfl]
    exact congrArg Prod.fst (cut_of_append [] _)
  · have named : dropName ('x' :: '\x7b' :: body) = some ('\x7b' :: body) := rfl
    have colon (fuel : Nat) : dropColon (fuel + 1) ('\x7b' :: body) = none := rfl
    rw [readPlain, if_neg (fun sign => by cases sign), readDeclaration, named]
    · dsimp only
      rw [parts]
      dsimp only
      rw [colon]
      rfl
    · rintro ⟨⟩
  · have found : dropHead .sheet ('x' :: '\x7b' :: body) = some (.rule, '\x7b' :: body, .outside) := rfl
    have bare : cut ('\x7b' :: body) ('\x7b' :: body) = ([], '\x7b' :: body) := cut_of_append [] _
    rw [readHead, found]
    dsimp only
    rw [parts]
    dsimp only
    rw [dropGap_solid rfl, bare]
    rfl

/-- The inside of the only rule has one declaration. -/
theorem Stands.inside (stands : Stands ending property value) : ∃ inner rest,
    Reads .block (onlyBody ending property value) inner ('}' :: rest) ∧
      rowOf inner = [⟨property.toList, value.toList, false⟩] := by
  obtain ⟨sound, rule, rules, entries⟩ := stands
  obtain ⟨items, parsed, -⟩ := (hasError_eq_false _).mp sound
  obtain ⟨mark, body, read, cutting, rfl, reads⟩ := parse_eq_some_iff.mp parsed
  have bare : cut (only ending property value).source (withoutMark (only ending property value).source) =
      ([], 'x' :: '\x7b' :: onlyBody ending property value) := cut_of_append [] _
  rw [bare] at cutting
  cases cutting
  obtain ⟨inner, rest, more, rfl, within, -⟩ := (heads_only _).reads reads .sheet
  have told := congrArg (List.map Rule.outline) ((rules_of_parse parsed).symm.trans rules)
  rw [outline_rulesFrom, gapItems, List.nil_append, outlinesOf, Item.outlines, if_pos rfl] at told
  have first := (List.cons.inj told).1
  exact ⟨inner, rest, within, by rw [← entries, ← first]⟩

/-! ### The only declaration -/

/-- Where a declaration stands among items. -/
theorem placedFrom_split {front behind : List Placed} {p : Placed} {offset : Nat}
    (split : placedFrom offset items = front ++ p :: behind) :
    ∃ early d late, items = early ++ .declaration d :: late ∧ placedFrom offset early = front ∧
      p = placeDeclaration (offset + (textOf early).length) d ∧
        placedFrom (offset + (textOf early).length + d.text.length) late = behind := by
  induction items generalizing offset front with
  | nil => cases front <;> cases split
  | cons item items ih =>
    have later {front : List Placed}
        (split : placedFrom (offset + item.text.length) items = front ++ p :: behind) :
        ∃ early d late, items = early ++ .declaration d :: late ∧
          placedFrom (offset + item.text.length) early = front ∧
          p = placeDeclaration (offset + (textOf (item :: early)).length) d ∧
            placedFrom (offset + (textOf (item :: early)).length + d.text.length) late = behind := by
      obtain ⟨early, d, late, whole, before, here, after⟩ := ih split
      rw [Nat.add_assoc offset, ← List.length_append] at here after
      exact ⟨early, d, late, whole, before, here, after⟩
    cases item with
    | declaration d =>
      cases front with
      | nil =>
        obtain ⟨rfl, rfl⟩ := List.cons.inj split
        exact ⟨[], d, items, rfl, rfl, rfl, rfl⟩
      | cons first front =>
        obtain ⟨rfl, tail⟩ := List.cons.inj split
        obtain ⟨early, d', late, rfl, rfl, here, after⟩ := later tail
        exact ⟨.declaration d :: early, d', late, rfl, rfl, here, after⟩
    | gap text =>
      obtain ⟨early, d, late, rfl, before, here, after⟩ := later split
      exact ⟨.gap text :: early, d, late, rfl, before, here, after⟩
    | statement text =>
      obtain ⟨early, d, late, rfl, before, here, after⟩ := later split
      exact ⟨.statement text :: early, d, late, rfl, before, here, after⟩
    | block kind head gap inner =>
      obtain ⟨early, d, late, rfl, before, here, after⟩ := later split
      exact ⟨.block kind head gap inner :: early, d, late, rfl, before, here, after⟩

/-- A declaration among items is read where it stands. -/
theorem Reads.declaration {stop : List Char} {early late : List Item} {d : DeclarationItem}
    (reads : Reads .block cs (early ++ .declaration d :: late) stop) : ∃ middle rest, Reads .block cs early middle ∧
      AtItem middle ∧ readDeclaration true middle = some (d, rest) ∧ Reads .block rest late stop := by
  obtain ⟨middle, before, reads⟩ := reads_append_iff.mp reads
  cases reads with
  | plain here found more =>
    refine ⟨middle, _, before, here, ?_, more⟩
    rw [readPlain] at found
    · split at found
      · obtain ⟨_, -, same⟩ := Option.map_eq_some_iff.mp found
        cases same
      · obtain ⟨⟨d, rest⟩, read, same⟩ := Option.map_eq_some_iff.mp found
        cases same
        exact read
    · rintro ⟨⟩

/-- A name has no characters but those of names. -/
theorem dropName_chars {name : List Char} (found : dropName (name ++ rest) = some rest) :
    name ≠ [] ∧ ∀ c ∈ name, isNameChar c = true := by
  have all {lead more : List Char} (leads : ∀ c ∈ lead, isNameChar c = true)
      (whole : name ++ rest = lead ++ more) (read : more.dropWhile isNameChar = rest) :
      ∀ c ∈ name, isNameChar c = true := by
    have split : name = lead ++ more.takeWhile isNameChar := by
      refine @List.append_cancel_right _ _ rest _ (whole.trans ?_)
      rw [← read, List.append_assoc, List.takeWhile_append_dropWhile]
    intro c member
    rw [split, List.mem_append] at member
    exact member.elim (leads c) List.mem_takeWhile_imp
  refine ⟨?_, ?_⟩
  · rintro rfl
    exact absurd (dropName_lt found) (Nat.lt_irrefl _)
  · unfold dropName at found
    split at found
    · rename_i more whole
      exact @all ['-', '-'] more (by simp [isNameChar]) whole (Option.some.inj found)
    · rename_i c more _ whole
      split at found
      · rename_i start
        refine @all ['-', c] more ?_ whole (Option.some.inj found)
        simp [isNameChar, start]
      · cases found
    · rename_i c more _ _ whole
      split at found
      · rename_i start
        refine @all [c] more ?_ whole (Option.some.inj found)
        simp [isNameChar, start]
      · cases found
    · cases found

/-- A colon in front of a declaration's value is the one that is found. -/
theorem dropColon_first {fuel : Nat} (found : dropColon fuel (':' :: rest) = some body) :
    body = rest ∧ beginsPseudoClass (':' :: rest) = false := by
  cases fuel with
  | zero => cases found
  | succ fuel =>
    unfold dropColon at found
    dsimp only at found
    rw [List.dropWhile_cons_of_neg (by decide), dropComment_solid (by decide)] at found
    split at found
    · cases found
    · rename_i plain
      simp only [Bool.or_eq_true, not_or, Bool.not_eq_true] at plain
      dsimp only at found
      split at found
      · cases found
      · rename_i same
        cases same
        exact ⟨(Option.some.inj found).symm, plain.2⟩
      · cases found

/-- Where a name, a colon and a blank follow each other, the name cannot begin a little later as well. -/
theorem name_first {name early rest behind : List Char} (chars : ∀ c ∈ name, isNameChar c = true) (filled : name ≠ [])
    (same : early ++ (name ++ rest) = name ++ ':' :: ' ' :: behind) (short : early.length ≤ 2) : early = [] := by
  rcases List.append_eq_append_iff.mp same with ⟨a, split, whole⟩ | ⟨a, rfl, whole⟩
  · cases early with
    | nil => rfl
    | cons c early =>
      -- The colon would be a character of the name.
      have inside : a.length < name.length := by
        rw [split]
        simp only [List.length_append, List.length_cons]
        omega
      have colon : name[a.length]? = some ':' := by
        rw [← @List.getElem?_append_left _ name rest _ inside, whole]
        simp
      exact absurd (chars ':' (List.mem_of_getElem? colon)) (by decide)
  · -- The name would begin with the colon or the blank.
    obtain ⟨c, name, rfl⟩ := List.exists_cons_of_ne_nil filled
    have first := chars c (by simp)
    rcases a with _ | ⟨d, _ | ⟨d', a⟩⟩
    · obtain rfl : ':' = c := (List.cons.inj whole).1
      exact absurd first (by decide)
    · obtain rfl : ' ' = c := (List.cons.inj (List.cons.inj whole).2).1
      exact absurd first (by decide)
    · simp only [List.length_append, List.length_cons] at short
      omega

/-- The value behind a blank is cut off in front of what ends the declaration. -/
theorem value_first {value v last : List Char} (whole : value ++ last = ' ' :: (v ++ ending))
    (trims : Text.trim value = v) (filled : v ≠ []) (solid : ∀ c ∈ ending.head?, Text.isBlank c = false) :
    value = ' ' :: v ∧ last = ending := by
  obtain ⟨early, late, blank, blank', split⟩ := Text.trim_split value
  have bare := Text.bare_trim value
  rw [trims] at split bare
  obtain ⟨c, v, rfl⟩ := List.exists_cons_of_ne_nil filled
  have first : Text.isBlank c = false := bare.1 c rfl
  rw [split] at whole
  rcases early with _ | ⟨b, _ | ⟨b', early⟩⟩
  · obtain rfl : c = ' ' := (List.cons.inj whole).1
    exact absurd first (by decide)
  · obtain ⟨rfl, whole⟩ := List.cons.inj whole
    have behind : late ++ last = ending := by simpa using whole
    cases late with
    | nil => exact ⟨by simpa using split, behind⟩
    | cons b late =>
      rw [← behind] at solid
      have other := solid b rfl
      rw [blank' b (by simp)] at other
      cases other
  · obtain rfl : b' = c := (List.cons.inj (List.cons.inj whole).2).1
    rw [blank b' (by simp)] at first
    cases first

/-- The value behind a blank and in front of the end of the block is read alone. -/
theorem BodyReads.alone {value v last : List Char} {ended : Bool} (ends : ending = [';'] ∨ ending = [])
    (reads : BodyReads (' ' :: (v ++ (ending ++ ['}']))) value [] last ended) (trims : Text.trim value = v) :
    ∃ y, Alone v (ending ++ ['}']) y ∧ (ending = [] → y = []) := by
  obtain ⟨cuts, stop, found, read, marked, stops⟩ := reads
  rw [List.append_nil] at cuts
  -- The text behind the value ends the declaration, and no value begins with it.
  obtain ⟨c, more, behind, c_ends⟩ : ∃ c more, ending ++ ['}'] = c :: more ∧ (c = ';' ∨ c = '}') := by
    rcases ends with rfl | rfl
    · exact ⟨';', ['}'], rfl, .inl rfl⟩
    · exact ⟨'}', [], rfl, .inr rfl⟩
  have solid : beginsGap c = false := by rcases c_ends with rfl | rfl <;> rfl
  have gap (spot : Spot) : dropGap spot (ending ++ ['}']) = ending ++ ['}'] := by
    rw [behind, dropGap_solid (by simp [solid])]
  have filled : v ≠ [] := by
    rintro rfl
    rw [List.nil_append, ← List.singleton_append, dropGap_blanks .value Text.plainBlank_space, gap, behind,
      declared_ends c_ends] at read
    cases read
  obtain ⟨-, rfl⟩ := value_first cuts.symm trims filled (by
    rw [behind]
    rintro _ ⟨⟩
    rcases c_ends with rfl | rfl <;> decide)
  obtain rfl : found = none := by
    cases found with
    | none => rfl
    | some m =>
      obtain ⟨-, important, -⟩ := declared_from_mark read (by simp)
      obtain rfl : m = ending ++ ['}'] := marked
      rcases ends with rfl | rfl <;> cases important
  have edge : Edge (ending ++ ['}']) (ending ++ ['}']) := by
    rw [behind]
    exact @edge_of_blanks [] c (by simp) (by rcases c_ends with rfl | rfl <;> rfl) more
  cases ended with
  | true =>
    obtain ⟨y, rfl⟩ := (stops.1 ▸ (takes_dropGap taking_all .series stop).suffix : ending ++ ['}'] <:+ stop)
    refine ⟨y, ⟨edge, read, stops.1⟩, fun none => ?_⟩
    rw [none] at stops
    cases stops.2
  | false =>
    obtain ⟨rfl, -⟩ := stops
    exact ⟨[], ⟨edge, read, gap .series⟩, fun _ => rfl⟩

/-- What the only declaration of a sheet is read as. -/
theorem Stands.spelled (stands : Stands ending property value) (ends : ending = [';'] ∨ ending = []) : ∃ y,
    Spelled property.toList value.toList (ending ++ ['}']) y ∧ (ending = [] → y = []) ∧
      Text.trim value.toList = value.toList := by
  obtain ⟨inner, rest, reads, row⟩ := stands.inside
  -- Among the items there is one declaration.
  rw [← rowOf_placedFrom 0] at row
  obtain ⟨p, placed, entry⟩ := List.map_eq_singleton_iff.mp row
  obtain ⟨early, d, late, rfl, -, rfl, -⟩ := @placedFrom_split _ [] [] p 0 placed
  obtain ⟨middle, behind, before, here, declares, after⟩ := reads.declaration
  obtain ⟨body, last, named, split, colon, within, rfl⟩ := readDeclaration_iff.mp declares
  obtain ⟨name_eq, value_eq, mark_eq⟩ : d.name = property.toList ∧ Text.trim d.value = value.toList ∧ d.mark = [] := by
    simpa [Placed.entry, placeDeclaration, DeclarationItem.isImportant] using entry
  rw [← name_eq, ← value_eq]
  have whole := before.text
  rw [split, onlyBody, ← name_eq, ← value_eq] at whole
  rw [split] at named
  obtain ⟨filled, chars⟩ := dropName_chars named
  -- There is no room for anything else in front of the declaration.
  have first : textOf early = [] := by
    refine name_first chars filled whole ?_
    have size : (Text.trim d.value).length ≤ d.value.length := by
      obtain ⟨_, _, -, -, split⟩ := Text.trim_split d.value
      have := congrArg List.length split
      simp only [List.length_append] at this
      omega
    have end_size : ending.length ≤ 1 := by rcases ends with rfl | rfl <;> simp
    have sizes := congrArg List.length whole
    have after_size := congrArg List.length after.text
    have body_size := congrArg List.length within.split
    simp only [List.length_append, List.length_cons, List.length_nil] at sizes after_size body_size
    omega
  rw [first, List.nil_append] at whole
  have whole := List.append_cancel_left whole
  rw [whole] at named colon
  obtain ⟨rfl, plain⟩ := dropColon_first colon
  have bare : dropName d.name = some [] := by
    rw [dropName_local (by rintro c ⟨⟩; decide)] at named
    obtain ⟨stop, read, same⟩ := Option.map_eq_some_iff.mp named
    obtain rfl : stop = [] := List.append_left_eq_self.mp same
    exact read
  rw [mark_eq] at within
  obtain ⟨y, alone, none⟩ := within.alone ends rfl
  exact ⟨y, ⟨bare, by simpa [beginsPseudoClass] using plain, alone⟩, none, Text.trim_trim _⟩

end Plain

end Retouch.Sheet
