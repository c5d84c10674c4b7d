import Retouch.Proofs.Style.Trip
import Retouch.Sheet.Declare

/-!
# Declarations apart from their places

What a rule says, wherever it stands in its sheet: its selector and the row of its declarations. Setting and
removing a property are changes of this row; which rule a selector means does not depend on the places either.

## Main statements

* `find?_put` and `find?_drop`: what is declared after a property was set or removed.
* `Lands.resolve`: after a change of its declarations a rule is found as before.
-/
namespace Retouch.Sheet

/-- A declaration apart from its place, without the blanks around its value. -/
structure Entry where
  property : List Char
  text : List Char
  important : Bool
  deriving DecidableEq, Repr

def Placed.entry (p : Placed) : Entry := ⟨p.property, Text.trim p.value, p.important⟩

/-- A rule apart from its place. -/
structure Outline where
  selector : List Char
  entries : List Entry
  /-- The name and the params of the at-rule around it. -/
  container : Option (String × String)
  deriving DecidableEq, Repr

def Rule.outline (rule : Rule) : Outline :=
  ⟨rule.selector, rule.declarations.map Placed.entry, rule.container.map fun a => (a.name, a.params)⟩

def outline (sheet : Sheet) : List Outline := sheet.rules.map Rule.outline

/-! ### Rows of declarations -/

def Entry.isOf (property : String) (e : Entry) : Bool := sameProperty e.property property.toList

/-- The value that a declaration stands for as one of a property. -/
def Entry.value (property : String) (e : Entry) : Style.Value :=
  .parse property (String.ofList e.text)

namespace Entries

/-- The first declaration of a property. -/
def find? (property : String) (entries : List Entry) : Option Entry :=
  List.find? (Entry.isOf property) entries

/-- Sets a property: in its place when it is there, at the end when it is new. -/
def put (property text : String) : List Entry → List Entry
  | [] => [⟨property.toList, Text.trim text.toList, false⟩]
  | e :: rest =>
    if e.isOf property then { e with text := Text.trim text.toList } :: rest else e :: put property text rest

/-- Takes out the first declaration of a property. -/
def drop (property : String) (entries : List Entry) : List Entry := entries.eraseP (Entry.isOf property)

end Entries

/-- Names that are the same to one name are the same to each other. -/
theorem isOf_congr {property other : String} (same : sameProperty property.toList other.toList = true)
    (e : Entry) : e.isOf property = e.isOf other := by
  have eq : Text.lowerChars property.toList = Text.lowerChars other.toList := by simpa [sameProperty] using same
  simp only [Entry.isOf, sameProperty, eq]

theorem isOf_other {property other : String} (apart : sameProperty property.toList other.toList = false)
    {e : Entry} (named : e.isOf property = true) : e.isOf other = false := by
  have eq : Text.lowerChars e.property = Text.lowerChars property.toList := by
    simpa [Entry.isOf, sameProperty] using named
  simpa only [Entry.isOf, sameProperty, eq] using apart

section rows

variable {property other : String} {entries : List Entry} (text : String)

/-- The property that was set has the new text, and whether it is important is as before. -/
theorem find?_put_self (entries : List Entry) : Entries.find? property (Entries.put property text entries) =
    some { (Entries.find? property entries).getD ⟨property.toList, [], false⟩ with
      text := Text.trim text.toList } := by
  -- By the recursion of `put`: it stops at the first entry of the property, which is the one that is found.
  induction entries with
  | nil =>
    have own : Entry.isOf property ⟨property.toList, Text.trim text.toList, false⟩ = true := by
      simp [Entry.isOf, sameProperty]
    simp [Entries.put, Entries.find?, own]
  | cons e rest ih =>
    unfold Entries.put
    split
    · rename_i named
      have still : Entry.isOf property { e with text := Text.trim text.toList } = true := named
      simp [Entries.find?, named, still]
    · rename_i unnamed
      simp only [Entries.find?, List.find?_cons, unnamed] at ih ⊢
      exact ih

/-- Other properties are left alone. -/
theorem find?_put_other (apart : sameProperty property.toList other.toList = false) (entries : List Entry) :
    Entries.find? other (Entries.put property text entries) = Entries.find? other entries := by
  induction entries with
  | nil =>
    have own : Entry.isOf property ⟨property.toList, Text.trim text.toList, false⟩ = true := by
      simp [Entry.isOf, sameProperty]
    simp [Entries.put, Entries.find?, isOf_other apart own]
  | cons e rest ih =>
    unfold Entries.put
    split
    · rename_i named
      have still : Entry.isOf property { e with text := Text.trim text.toList } = true := named
      simp [Entries.find?, isOf_other apart named, isOf_other apart still]
    · simp only [Entries.find?, List.find?_cons] at ih ⊢
      rw [ih]

theorem find?_drop_other (apart : sameProperty property.toList other.toList = false) (entries : List Entry) :
    Entries.find? other (Entries.drop property entries) = Entries.find? other entries := by
  induction entries with
  | nil => rfl
  | cons e rest ih =>
    cases named : e.isOf property with
    | true => simp [Entries.drop, Entries.find?, named, isOf_other apart named]
    | false =>
      simp only [Entries.drop, Entries.find?, List.eraseP_cons, named, cond_false, List.find?_cons] at ih ⊢
      split
      · rfl
      · exact ih

/-- Taking out what was added at the end leaves the row as it was. -/
theorem drop_put_new (new : Entries.find? property entries = none) :
    Entries.drop property (Entries.put property text entries) = entries := by
  -- No entry on the way is of the property, so both walk to the end.
  induction entries with
  | nil => simp [Entries.put, Entries.drop, Entry.isOf, sameProperty]
  | cons e rest ih =>
    simp only [Entries.find?, List.find?_cons] at new ih
    split at new
    · cases new
    · rename_i unnamed
      simp only [Entries.put, Entries.drop, unnamed, Bool.false_eq_true, if_false, List.eraseP_cons,
        cond_false] at ih ⊢
      rw [ih new]

end rows

/-- What a rule has for a property is what its row says. -/
theorem declaration?_entry (rule : Rule) (property : String) :
    (rule.declaration? property).map Placed.entry = Entries.find? property rule.outline.entries := by
  unfold Rule.declaration? Entries.find? Rule.outline
  rw [List.find?_map]
  rfl

theorem style?_eq (rule : Rule) (property : String) :
    rule.style? property = (Entries.find? property rule.outline.entries).map (Entry.value property) := by
  rw [← declaration?_entry, Option.map_map]
  rfl

/-! ### Finding rules -/

/-- In the second sheet the rules have the same selectors as in the first. -/
def SameSelectors (first second : List Rule) : Prop := first.map Rule.selector = second.map Rule.selector

theorem matches_congr {rule other : Rule} (same : rule.selector = other.selector) (normal : List Char) :
    rule.matches normal = other.matches normal := by
  unfold Rule.matches Rule.selectors
  rw [same]

/-- Rules with the same selectors match at the same places. -/
theorem matching_congr {normal : List Char} {first second : List Rule} (same : SameSelectors first second)
    (start : Nat) : (matching normal (first.zipIdx start)).map (List.map Prod.snd) =
      (matching normal (second.zipIdx start)).map (List.map Prod.snd) := by
  -- On both rows at once; the numbers are places, so only they can be compared.
  induction first generalizing second start with
  | nil =>
    obtain rfl : second = [] := List.map_eq_nil_iff.mp same.symm
    rfl
  | cons rule rest ih =>
    cases second with
    | nil => simp [SameSelectors] at same
    | cons other more =>
      obtain ⟨head, tail⟩ := List.cons.inj same
      have rests := ih tail (start + 1)
      rw [List.zipIdx_cons, List.zipIdx_cons, matching, matching, matches_congr head]
      cases other.matches normal with
      | error e => rfl
      | ok here =>
        -- Whether the rest can be searched, and where it matches, is the same by induction.
        cases one : matching normal (rest.zipIdx (start + 1)) with
        | error e =>
          cases two : matching normal (more.zipIdx (start + 1)) with
          | error e' =>
            rw [one, two] at rests
            cases rests
            rfl
          | ok found' =>
            rw [one, two] at rests
            cases rests
        | ok found =>
          cases two : matching normal (more.zipIdx (start + 1)) with
          | error e' =>
            rw [one, two] at rests
            cases rests
          | ok found' =>
            rw [one, two] at rests
            have numbers : found.map Prod.snd = found'.map Prod.snd := Except.ok.inj rests
            cases here <;> simp [bind, Except.bind, pure, Except.pure, Except.map, numbers]

/-- What matches are rules with their numbers. -/
theorem mem_of_matching {normal : List Char} {entries found : List (Rule × Nat)}
    (matched : matching normal entries = .ok found) : ∀ entry ∈ found, entry ∈ entries := by
  induction entries generalizing found with
  | nil =>
    cases matched
    simp
  | cons entry rest ih =>
    unfold matching at matched
    cases here : entry.1.matches normal with
    | error e => 
      rw [here] at matched
      cases matched
    | ok holds =>
      rw [here] at matched
      cases more : matching normal rest with
      | error e =>
        rw [more] at matched
        cases matched
      | ok others =>
        rw [more] at matched
        intro chosen member
        have rests := ih more
        cases holds with
        | true =>
          obtain rfl := Except.ok.inj matched
          rcases List.mem_cons.mp member with rfl | later
          · exact List.mem_cons_self
          · exact List.mem_cons_of_mem _ (rests _ later)
        | false =>
          obtain rfl := Except.ok.inj matched
          exact List.mem_cons_of_mem _ (rests _ member)

/-- A rule that is found is the one of its number. -/
theorem resolve_eq_ok {sheet : Sheet} {selector : String} {rule : Rule} {index : Nat}
    (found : sheet.resolve selector none = .ok (rule, index)) : sheet.rules[index]? = some rule := by
  unfold resolve at found
  simp only [find?, findAll] at found
  cases matched : matching (normalizeSelector selector.toList) sheet.rules.zipIdx with
  | error e =>
    rw [matched] at found
    cases found
  | ok entries =>
    rw [matched] at found
    cases entries with
    | nil =>
      simp only [Except.map, List.head?_nil] at found
      split at found <;> cases found
    | cons entry rest =>
      obtain rfl : entry = (rule, index) := Except.ok.inj found
      have member := mem_of_matching matched _ List.mem_cons_self
      simpa [List.mem_zipIdx_iff_getElem?] using member

/-- In a sheet whose rules have the same selectors, the rule of the same number is found. -/
theorem resolve_congr {sheet after : Sheet} (same : SameSelectors sheet.rules after.rules) {selector : String}
    {rule : Rule} {index : Nat} (found : sheet.resolve selector none = .ok (rule, index)) :
    ∃ rule', after.resolve selector none = .ok (rule', index) ∧ after.rules[index]? = some rule' := by
  -- The same places match in both sheets, and the first of them is the rule that is found.
  have matches' : (matching (normalizeSelector selector.toList) sheet.rules.zipIdx).map (List.map Prod.snd) =
      (matching (normalizeSelector selector.toList) after.rules.zipIdx).map (List.map Prod.snd) :=
    matching_congr same 0
  unfold resolve at found ⊢
  simp only [find?, findAll] at found ⊢
  cases matched : matching (normalizeSelector selector.toList) sheet.rules.zipIdx with
  | error e =>
    rw [matched] at found
    cases found
  | ok entries =>
    rw [matched] at found matches'
    cases matched' : matching (normalizeSelector selector.toList) after.rules.zipIdx with
    | error e =>
      rw [matched'] at matches'
      cases matches'
    | ok entries' =>
      rw [matched'] at matches'
      have numbers : entries.map Prod.snd = entries'.map Prod.snd := Except.ok.inj matches'
      cases entries with
      | nil =>
        simp only [Except.map, List.head?_nil] at found
        split at found <;> cases found
      | cons entry rest =>
        obtain rfl : entry = (rule, index) := Except.ok.inj found
        cases entries' with
        | nil => cases numbers
        | cons entry' rest' =>
          obtain ⟨number, -⟩ := List.cons.inj numbers
          obtain ⟨rule', index'⟩ := entry'
          obtain rfl : index = index' := number
          have member := mem_of_matching matched' _ List.mem_cons_self
          exact ⟨rule', rfl, by simpa [List.mem_zipIdx_iff_getElem?] using member⟩

/-! ### Changes of one rule -/

/-- The second sheet says what the first one does, but for a change of the declarations of one rule. -/
def Lands (sheet after : Sheet) (index : Nat) (change : List Entry → List Entry) : Prop :=
  after.outline = sheet.outline.modify index fun o => { o with entries := change o.entries }

namespace Lands

variable {sheet after : Sheet} {index : Nat} {change : List Entry → List Entry}

theorem sameSelectors (lands : Lands sheet after index change) : SameSelectors sheet.rules after.rules := by
  have ofRules (sheet : Sheet) : sheet.rules.map Rule.selector = sheet.outline.map Outline.selector := by
    simp [outline, Rule.outline, Function.comp_def]
  have kept : (sheet.outline.modify index fun o => { o with entries := change o.entries }).map
      Outline.selector = sheet.outline.map Outline.selector := by
    apply List.ext_getElem?
    intro place
    rw [List.getElem?_map, List.getElem?_map, List.getElem?_modify]
    cases sheet.outline[place]? with
    | none => rfl
    | some o => by_cases here : index = place <;> simp [here]
  rw [SameSelectors, ofRules, ofRules, lands, kept]

/-- After the change the rule is found as before, with its declarations changed. -/
theorem resolve (lands : Lands sheet after index change) {selector : String} {rule : Rule}
    (found : sheet.resolve selector none = .ok (rule, index)) :
    ∃ rule', after.resolve selector none = .ok (rule', index) ∧ after.rules[index]? = some rule' ∧
      rule'.outline.entries = change rule.outline.entries := by
  -- A change of declarations leaves the selectors alone, so the same place is found.
  obtain ⟨rule', found', there⟩ := resolve_congr lands.sameSelectors found
  refine ⟨rule', found', there, ?_⟩
  have before : sheet.outline[index]? = some rule.outline := by simp [outline, resolve_eq_ok found]
  have now : after.outline[index]? = some rule'.outline := by simp [outline, there]
  rw [lands, List.getElem?_modify, before] at now
  have outlines : { rule.outline with entries := change rule.outline.entries } = rule'.outline := by
    simpa using now
  rw [← outlines]

end Lands

/-! ### What the edits come to -/

/-- The value can be written. -/
def Writable (value : Style.Value) : Prop := ∃ text, value.text = .ok text

theorem writeText_eq_ok {value : Style.Value} {text : String} :
    writeText value = .ok text ↔ value.text = .ok text := by
  unfold writeText
  cases value.text <;> simp [Except.mapError]

theorem mapM_writeText_ok {values : List Style.Value} :
    (∃ texts, values.mapM writeText = .ok texts) ↔ ∀ value ∈ values, Writable value := by
  induction values with
  | nil => simp [pure, Except.pure]
  | cons value rest ih =>
    rw [List.mapM_cons, List.forall_mem_cons, ← ih]
    simp only [Writable, ← writeText_eq_ok]
    cases writeText value with
    | error e => simp [bind, Except.bind]
    | ok text =>
      cases rest.mapM writeText with
      | error e => simp [bind, Except.bind]
      | ok texts => simp [bind, Except.bind, pure, Except.pure]

/-- A check passes just if the property has a value close to the one expected. -/
theorem checkPrior_eq_ok {rule : Rule} {property : String} {prior current : Style.Value} :
    checkPrior rule property prior = .ok current ↔ rule.style? property = some current ∧
      current.close prior Style.Value.defaultTolerance = .ok true := by
  unfold checkPrior
  cases declared : rule.style? property with
  | none => simp [failure]
  | some found =>
    dsimp only
    split
    · rename_i close
      simp only [Except.ok.injEq, Option.some.injEq]
      exact ⟨fun same => ⟨same, same ▸ close⟩, fun both => both.1⟩
    · rename_i differs
      constructor
      · -- The refusal, and the texts that its message needs: whichever comes first, there is no value.
        intro passed
        cases first : writeText prior with
        | error e => simp [first, bind, Except.bind] at passed
        | ok expected =>
          cases second : writeText found with
          | error e => simp [first, second, bind, Except.bind] at passed
          | ok shown => simp [first, second, bind, Except.bind, failure] at passed
      · rintro ⟨same, close⟩
        exact absurd (Option.some.inj same ▸ close) differs

variable {α : Type} {sheet after : Sheet} {rule : Rule} {index : Nat} {property : String}

/-- A property is set and recorded just if all values can be written and the rule is still there. -/
theorem setRecorded_eq_ok {new : Style.Value} {recorded : List Style.Value} {answer a : α} :
    sheet.setRecorded rule index property new recorded answer = ⟨after, .ok a⟩ ↔
      ∃ text, new.text = .ok text ∧ sheet.set rule property text = after ∧
        (after.rules[index]?).isSome ∧ (∀ value ∈ recorded, Writable value) ∧ answer = a := by
  unfold setRecorded
  simp only [← writeText_eq_ok, ← mapM_writeText_ok]
  cases writeText new with
  | error e => simp
  | ok text =>
    dsimp only
    simp only [Sheet.rule]
    constructor
    · intro done
      split at done
      · cases done
      · rename_i there
        split at done
        · cases done
        · rename_i texts written
          cases done
          refine ⟨text, rfl, rfl, ?_, ⟨texts, written⟩, rfl⟩
          split at there
          · rename_i found
            simp [found]
          · cases there
    · rintro ⟨_, same, rfl, there, ⟨texts, written⟩, rfl⟩
      obtain rfl := Except.ok.inj same
      obtain ⟨found, there⟩ := Option.isSome_iff_exists.mp there
      simp [there, written]

end Retouch.Sheet
