import Retouch.Proofs.Sheet.Recast
import Retouch.Proofs.Project.Revert
import Retouch.Proofs.Text.LineBreak

/-!
# Updates of different declarations

An update finds its rule by the selectors of a sheet and its declaration by the name, and checks the value that is there.
After a declaration was changed, and all else was moved only, an update of another one finds the same rule and the same
value; so it is made just if the sheet with both values can be read. Whichever value is put in its place first, the text
is the same in the end.

## Main statements

* `updating_eq_ok_iff`: when an update is made, and what it leaves.
* `Updates.recast`: an update of another declaration is one of the changed sheet as well.
* `replaceBoth_of_aside`: in either order two values come to the same text.
-/
namespace Retouch.Sheet

variable {sheet after : Sheet} {p q q' : Placed} {last' index place : Nat} {rule : Rule} {selector property value : String}
  {prior new : Style.Value} {previous : Option Style.Value} {rules rules' : List Rule} {text : String}

/-! ### Finding another declaration -/

theorem Placed.Aside.property_eq (aside : Placed.Aside p last' q q') : q'.property = q.property := by cases aside <;> rfl

theorem Placed.Aside.value_eq (aside : Placed.Aside p last' q q') : q'.value = q.value := by cases aside <;> rfl

theorem find?_aside {holds : Placed → Bool} (named : ∀ q q', q.property = q'.property → holds q = holds q')
    {row row' : List Placed} (aside : List.Forall₂ (Placed.Aside p last') row row') :
    Option.Rel (Placed.Aside p last') (row.find? holds) (row'.find? holds) := by
  induction aside with
  | nil => exact .none
  | @cons q q' rest rest' first more ih =>
    rw [List.find?_cons, List.find?_cons, ← named q q' first.property_eq.symm]
    split
    · exact .some first
    · exact ih

/-- A rule of another number, or another property, has the same declaration after a declaration was changed. -/
theorem Recast.declaration? {rule' : Rule} (recast : Recast p last' index rules rules')
    (there : rules[place]? = some rule) (there' : rules'[place]? = some rule')
    (apart : place ≠ index ∨ sameProperty p.property property.toList = false) :
    Option.Rel (Placed.Aside p last') (rule.declaration? property) (rule'.declaration? property) := by
  have named (q q' : Placed) (same : q.property = q'.property) :
      sameProperty q.property property.toList = sameProperty q'.property property.toList := by rw [same]
  rcases recast.at there there' with ⟨rfl, -, early, early', own, late, late', row, row', same, front, behind⟩ |
    ⟨-, -, declared⟩
  · -- The declaration that was changed is none of the property, so it is passed over.
    have other := apart.resolve_left (fun other => other rfl)
    unfold Rule.declaration?
    rw [row, row', List.find?_append, List.find?_append, List.find?_cons_of_neg (by simp [other]),
      List.find?_cons_of_neg (by simp [same, other]), ← List.find?_append, ← List.find?_append]
    exact find?_aside named (List.rel_append front behind)
  · exact find?_aside named declared

/-! ### Updates -/

/-- An update of a declaration that is found and has the value that is expected, where all values can be written. -/
structure Updates (sheet : Sheet) (selector property : String) (prior new : Style.Value) (rule : Rule) (index : Nat)
    (p : Placed) (text : String) : Prop where
  found : sheet.resolve selector none = .ok (rule, index)
  declared : rule.declaration? property = some p
  close : (Style.Value.parse property p.valueText).close prior Style.Value.defaultTolerance = .ok true
  writable : Writable (Style.Value.parse property p.valueText)
  written : new.text = .ok text

/-- An update is made when the rule is still there with the new value. -/
theorem updating_eq_ok_iff : Project.updating property prior new sheet selector = ⟨after, .ok previous⟩ ↔
    ∃ rule index p text, sheet.Updates selector property prior new rule index p text ∧
      sheet.replaceValue p text = after ∧ index < after.rules.length ∧
        previous = some (Style.Value.parse property p.valueText) := by
  have style {rule : Rule} {value : Style.Value} : rule.style? property = some value ↔
      ∃ p, rule.declaration? property = some p ∧ Style.Value.parse property p.valueText = value :=
    Option.map_eq_some_iff
  have inside {rules : List Rule} {index : Nat} : (rules[index]?).isSome = true ↔ index < rules.length := by simp
  unfold Project.updating
  rw [Change.someResult_eq_ok]
  unfold updateDeclaration
  constructor
  · rintro ⟨value, made, rfl⟩
    split at made
    · cases made
    · rename_i rule index found
      split at made
      · cases made
      · rename_i current checked
        obtain ⟨declared, close⟩ := checkPrior_eq_ok.mp checked
        obtain ⟨p, own, rfl⟩ := style.mp declared
        obtain ⟨text, written, edit, there, recorded, rfl⟩ := setRecorded_eq_ok.mp made
        rw [set, own] at edit
        exact ⟨rule, index, p, text, ⟨found, own, close, recorded _ List.mem_cons_self, written⟩, edit,
          inside.mp there, rfl⟩
  · rintro ⟨rule, index, p, text, ⟨found, declared, close, writable, written⟩, edit, there, rfl⟩
    refine ⟨_, ?_, rfl⟩
    rw [found]
    dsimp only
    rw [checkPrior_eq_ok.mpr ⟨style.mpr ⟨p, declared, rfl⟩, close⟩]
    refine setRecorded_eq_ok.mpr ⟨text, written, ?_, inside.mpr there, ?_, rfl⟩
    · rw [set, declared]
      exact edit
    · exact List.forall_mem_cons.mpr ⟨writable, List.forall_mem_singleton.mpr ⟨text, written⟩⟩

/-- In a sheet an update is of one declaration. -/
theorem Updates.unique {rule' : Rule} {index' : Nat} {text' : String}
    (updates : sheet.Updates selector property prior new rule index p text)
    (updates' : sheet.Updates selector property prior new rule' index' q text') :
    rule = rule' ∧ index = index' ∧ p = q ∧ text = text' := by
  obtain ⟨found, declared, -, -, written⟩ := updates
  obtain ⟨found', declared', -, -, written'⟩ := updates'
  rw [found] at found'
  cases found'
  rw [declared] at declared'
  cases declared'
  rw [written] at written'
  cases written'
  exact ⟨rfl, rfl, rfl, rfl⟩

/-- An update is one of another declaration after a declaration was changed, and all else moved only. -/
theorem Updates.recast (updates : sheet.Updates selector property prior new rule place q text)
    (recast : Recast p last' index sheet.rules after.rules)
    (apart : place ≠ index ∨ sameProperty p.property property.toList = false) : ∃ rule' q',
      after.Updates selector property prior new rule' place q' text ∧ Placed.Aside p last' q q' := by
  obtain ⟨found, declared, close, writable, written⟩ := updates
  have same : SameSelectors sheet.rules after.rules := recast.sameSelectors
  obtain ⟨rule', found', there'⟩ := resolve_congr same found
  have related := recast.declaration? (resolve_eq_ok found) there' apart
  rw [declared] at related
  cases declared' : rule'.declaration? property with
  | none =>
    rw [declared'] at related
    cases related
  | some q' =>
    rw [declared'] at related
    cases related with
    | some aside =>
      have same : q'.valueText = q.valueText := by rw [Placed.valueText, aside.value_eq, Placed.valueText]
      rw [← same] at close writable
      exact ⟨rule', q', ⟨found', declared', close, writable, written⟩, aside⟩

/-! ### Two values in a text -/

/-- The offsets of a declaration are in order, and inside of a text. -/
structure Placed.Within (p : Placed) (cs : List Char) : Prop where
  named : p.start < p.valueStart
  ordered : p.valueStart ≤ p.valueStop
  mark : p.valueStop ≤ p.stop
  ends : p.stop ≤ cs.length
  value : p.value = between cs p.valueStart p.valueStop

theorem within_of_sound (sound : sheet.hasError = false) (member : rule ∈ sheet.rules)
    (declared : p ∈ rule.declarations) : p.Within sheet.source := by
  obtain ⟨front, behind, split⟩ := List.append_of_mem declared
  obtain ⟨early, d, late, stated, -, size⟩ := stated_of_sound sound member split
  obtain ⟨value_eq, -, first_eq, last_eq, -⟩ := stated.offsets
  have lies := (embraced_of_sound sound member).declared p declared
  refine ⟨?_, lies.ordered, lies.mark, size.le, ?_⟩
  · rw [first_eq, List.length_append, List.length_append, List.length_singleton]
    omega
  · have text := congrArg (List.drop (d.name ++ (d.gap ++ [':'])).length) stated.text.1
    rw [List.drop_drop, ← first_eq, List.drop_left] at text
    rw [value_eq, between, List.drop_take, last_eq, Nat.add_sub_cancel_left, text, List.take_left]

/-- Two parts of a text that lie apart, replaced one after the other; the offsets of the later one are moved. -/
theorem splice_moved {s e s' e' : Nat} (w w' : List Char) (order : s ≤ e) (apart : e ≤ s') (order' : s' ≤ e')
    (inside : e' ≤ sheet.source.length) :
    (sheet.splice s e w).splice (s' - e + (s + w.length)) (e' - e + (s + w.length)) w' =
      (sheet.splice s' e' w').splice s e w := by
  have front : (sheet.source.take s ++ w).length = s + w.length := by
    rw [List.length_append, List.length_take_of_le (by omega)]
  have size : s ≤ (sheet.source.take s').length := by rw [List.length_take_of_le (by omega)]; omega
  have size' : e ≤ (sheet.source.take s').length := by rw [List.length_take_of_le (by omega)]; omega
  have behind : sheet.source.drop e' = (sheet.source.drop e).drop (e' - e) := by
    rw [List.drop_drop]
    congr 1
    omega
  refine congrArg ofChars ?_
  simp only [splice, ofChars]
  rw [List.append_assoc (sheet.source.take s'), List.take_append_of_le_length size, List.drop_append_of_le_length size',
    List.take_take, Nat.min_eq_left (by omega), List.drop_take, Nat.add_comm (s' - e), Nat.add_comm (e' - e), ← front,
    List.take_length_add_append, ← List.drop_drop, List.drop_left, behind]
  simp only [List.append_assoc]

/-- The sheet with new values in two declarations. The one behind comes first, for it leaves the offsets of the other
one alone. -/
def replaceBoth (sheet : Sheet) (p : Placed) (value : String) (q : Placed) (other : String) : Sheet :=
  if p.start < q.start then (sheet.replaceValue q other).replaceValue p value
  else (sheet.replaceValue p value).replaceValue q other

theorem replaceBoth_comm (apart : p.start ≠ q.start) (value other : String) :
    sheet.replaceBoth p value q other = sheet.replaceBoth q other p value := by
  unfold replaceBoth
  rcases Nat.lt_or_gt_of_ne apart with less | more
  · rw [if_pos less, if_neg (by omega)]
  · rw [if_neg (by omega), if_pos more]

theorem Placed.Aside.starts_apart (aside : Placed.Aside p last' q q') {cs : List Char} (within : p.Within cs)
    (within' : q.Within cs) : p.start ≠ q.start := by
  obtain ⟨named, ordered, mark, -⟩ := within
  obtain ⟨named', ordered', mark', -⟩ := within'
  cases aside <;> omega

/-- A value that is put in its place after another one. -/
theorem replaceBoth_of_aside (aside : Placed.Aside p (p.stopWith value) q q') (within : p.Within sheet.source)
    (within' : q.Within sheet.source) (other : String) :
    (sheet.replaceValue p value).replaceValue q' other = sheet.replaceBoth p value q other := by
  obtain ⟨named, ordered, mark, -⟩ := within
  obtain ⟨named', ordered', mark', inside, -⟩ := within'
  unfold replaceBoth
  cases aside with
  | front before => rw [if_neg (by omega)]
  | behind after =>
    -- The other value is put where it stands now, moved by the difference of the first ones.
    rw [if_pos (by omega), replaceValue_eq, replaceValue_eq, replaceValue_eq, replaceValue_eq,
      ← splice_moved (p.renewed value) _ ordered (by omega) ordered' (by omega)]
    have first : (q.moved p.stop (p.stopWith value)).valueStart =
        q.valueStart - p.valueStop + (p.valueStart + (p.renewed value).length) := by
      simp only [Placed.moved, Placed.stopWith]
      omega
    have last : (q.moved p.stop (p.stopWith value)).valueStop =
        q.valueStop - p.valueStop + (p.valueStart + (p.renewed value).length) := by
      simp only [Placed.moved, Placed.stopWith]
      omega
    rw [first, last]
    rfl

/-! ### The characters of a text with another value -/

section Characters

variable {cs : List Char} {c : Char}

theorem Placed.Within.split (within : p.Within cs) : cs = cs.take p.valueStart ++ p.value ++ cs.drop p.valueStop := by
  rw [within.value, take_between within.ordered, List.take_append_drop]

/-- The blanks that stay behind a value are the end of it. -/
theorem trail_suffix (value : List Char) :
    value.drop (Text.trimEndBy Text.isPlainBlank value).length <:+ value := List.drop_suffix _ _

theorem mem_leadOf (member : c ∈ leadOf q.value) : c ∈ q.value ∨ c = ' ' := by
  unfold leadOf at member
  split at member
  · exact .inr (List.mem_singleton.mp member)
  · exact .inl ((List.takeWhile_prefix _).subset member)

/-- With another value a text has no other characters but those of the value, and a blank. -/
theorem mem_replaceValue (within : p.Within sheet.source) (member : c ∈ (sheet.replaceValue p value).source) :
    c ∈ sheet.source ∨ c ∈ value.toList ∨ c = ' ' := by
  have old (member : c ∈ p.value) : c ∈ sheet.source := by
    rw [within.split]
    simp [member]
  rw [replaceValue_eq, splice, ofChars, Placed.renewed] at member
  simp only [List.mem_append] at member
  rcases member with (front | (lead | own) | trail) | behind
  · exact .inl (List.mem_of_mem_take front)
  · exact (mem_leadOf lead).imp old .inr
  · exact .inr (.inl own)
  · exact .inl (old ((trail_suffix _).subset trail))
  · exact .inl (List.mem_of_mem_drop behind)

theorem mem_replaceValue_of_mem (sheet : Sheet) (p : Placed) (member : c ∈ value.toList) :
    c ∈ (sheet.replaceValue p value).source := by
  rw [replaceValue_eq, splice, ofChars, Placed.renewed]
  simp [member]

/-- A plain value is there, and begins with no blank. -/
theorem Plain.filled (plain : Plain property value) :
    value.toList ≠ [] ∧ ∀ c ∈ value.toList.head?, Text.isBlank c = false := by
  obtain ⟨y, ⟨-, -, alone⟩, -, trimmed⟩ := Stands.spelled plain (.inl rfl)
  refine ⟨fun none => ?_, fun c first => ?_⟩
  · -- Otherwise a value would be read where none is.
    have read := alone.read
    rw [none, List.nil_append, dropGap_blanks .value Text.plainBlank_space] at read
    have shorter := declared_lt read
    have gap := (takes_dropGap taking_all .value ([';'] ++ ['}'])).length_le
    rw [List.length_append] at shorter
    omega
  · exact ((Text.trim_eq_self_iff _).mp trimmed).first c first

end Characters

/-! ### Line breaks -/

open Text (LineBreak)

/-- A value without carriage returns brings no pairs into a text that has none. -/
theorem pure_replaceValue (within : p.Within sheet.source) (plain : Plain property value)
    (single : '\r' ∉ value.toList) (pure : LineBreak.Pure .feed sheet.source) :
    LineBreak.Pure .feed (sheet.replaceValue p value).source := by
  obtain ⟨filled, solid⟩ := plain.filled
  obtain ⟨first, rest, text⟩ := List.exists_cons_of_ne_nil filled
  rw [within.split] at pure
  -- What stays in front of the value and behind it are parts of the text.
  have front : LineBreak.Pure .feed (sheet.source.take p.valueStart ++ leadOf p.value) := by
    unfold leadOf
    split
    · refine .append (fun _ => by simp) ?_ rfl
      rw [List.append_assoc] at pure
      exact pure.front
    · have parts := List.takeWhile_append_dropWhile (p := Text.isPlainBlank) (l := p.value)
      rw [← parts, ← List.append_assoc, List.append_assoc] at pure
      exact pure.front
  have behind : LineBreak.Pure .feed (p.value.drop (Text.trimEndBy Text.isPlainBlank p.value).length ++
      sheet.source.drop p.valueStop) := by
    have parts := List.take_append_drop (Text.trimEndBy Text.isPlainBlank p.value).length p.value
    rw [← parts, ← List.append_assoc, List.append_assoc] at pure
    exact pure.parts.2
  have own : LineBreak.Pure .feed value.toList := LineBreak.pure_of_single single
  have whole : (sheet.replaceValue p value).source = (sheet.source.take p.valueStart ++ leadOf p.value) ++
      (value.toList ++ (p.value.drop (Text.trimEndBy Text.isPlainBlank p.value).length ++
        sheet.source.drop p.valueStop)) := by
    simp only [replaceValue_eq, splice, ofChars, Placed.renewed, List.append_assoc]
  rw [whole]
  refine .append (fun _ feed => ?_) front (.append (fun last => ?_) own behind)
  · rw [text] at feed solid
    cases feed
    exact absurd (solid '\n' rfl) (by decide)
  · exact absurd (List.mem_of_getLast? last) single

end Retouch.Sheet
