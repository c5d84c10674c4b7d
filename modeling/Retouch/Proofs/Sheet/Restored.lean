import Retouch.Proofs.Sheet.Entries

/-!
# Rows that say the same

Two rows of declarations say the same when every property has the same value in both, or one that is close to
it, and is as important. A value is written as a text and read again, and what is read may be another value.

## Main statements

* `restored_of_others`: where one property was changed, only this one has to be looked at.
* `Entries.restored_put`: when setting a property restores a row in which it was changed.
-/
namespace Retouch

/-! ### Values that say the same -/

namespace Style.Value

variable {property other : String}

/-- The same value, or one that is close to it. -/
def Alike (value other : Value) : Prop := value = other ∨ value.close other defaultTolerance = .ok true

/-- Where the value was written, it is found by those who expect it. -/
def Recognized (property : String) (value : Value) : Prop :=
  ∃ text, value.text = .ok text ∧ (parse property text).close value defaultTolerance = .ok true

/-- Where the value was written, one like the other one is read. -/
def Restores (property : String) (value other : Value) : Prop :=
  ∃ text, value.text = .ok text ∧ (parse property text).Alike other

/-- What is read where the value was written can be written again. -/
def Repeatable (property : String) (value : Value) : Prop :=
  ∃ text, value.text = .ok text ∧ Sheet.Writable (parse property text)

theorem parse_trim (property text : String) :
    parse property (String.ofList (Text.trim text.toList)) = parse property text := by
  unfold parse ofChars
  rw [String.toList_ofList, readAt_trim, Text.trim_trim]

/-- A property has its values under all its names. -/
theorem parse_congr (same : Sheet.sameProperty property.toList other.toList = true) (text : String) :
    parse property text = parse other text := by
  have lowered : Text.lower property = Text.lower other := by
    unfold Text.lower
    rw [show Text.lowerChars property.toList = Text.lowerChars other.toList by
      simpa [Sheet.sameProperty] using same]
  unfold parse ofChars isColorProperty
  rw [lowered]

end Style.Value

namespace Sheet

/-! ### Rows that say the same -/

/-- Two declarations of a property say the same. -/
structure Entry.Alike (property : String) (e other : Entry) : Prop where
  value : (e.value property).Alike (other.value property)
  important : e.important = other.important

theorem Entry.Alike.refl (property : String) (e : Entry) : e.Alike property e := ⟨.inl rfl, rfl⟩

/-- Of every property the second row says what the first one does. -/
def Entries.Restored (before after : List Entry) : Prop :=
  ∀ property, Option.Rel (Entry.Alike property) (find? property after) (find? property before)

/-- In the second rule every property has the value that it has in the first one, or one close to it, and is
as important; and no property is missing or new. -/
structure Restored (before after : Rule) : Prop where
  values : ∀ property, Option.Rel Style.Value.Alike (after.style? property) (before.style? property)
  important : ∀ property, (after.declaration? property).map Placed.important =
    (before.declaration? property).map Placed.important

theorem rel_cases {α β : Type} {relation : α → β → Prop} {a? : Option α} {b? : Option β}
    (related : Option.Rel relation a? b?) :
    a? = none ∧ b? = none ∨ ∃ a b, a? = some a ∧ b? = some b ∧ relation a b := by
  cases related with
  | none => exact .inl ⟨rfl, rfl⟩
  | some holds => exact .inr ⟨_, _, rfl, rfl, holds⟩

theorem restored_iff {before after : Rule} :
    Restored before after ↔ Entries.Restored before.outline.entries after.outline.entries := by
  have important (rule : Rule) (property : String) : (rule.declaration? property).map Placed.important =
      (Entries.find? property rule.outline.entries).map Entry.important := by
    rw [← declaration?_entry, Option.map_map]
    rfl
  constructor
  · rintro ⟨values, importances⟩ property
    have value := values property
    have importance := importances property
    rw [style?_eq, style?_eq] at value
    rw [important, important] at importance
    cases now : Entries.find? property after.outline.entries <;>
      cases earlier : Entries.find? property before.outline.entries <;>
      rw [now, earlier] at value importance
    · exact .none
    · cases value
    · cases value
    · cases value with
      | some alike => exact .some ⟨alike, Option.some.inj importance⟩
  · intro restored
    constructor
    · intro property
      rw [style?_eq, style?_eq]
      rcases rel_cases (restored property) with ⟨now, earlier⟩ | ⟨e, e', now, earlier, alike⟩ <;> rw [now, earlier]
      · exact .none
      · exact .some alike.value
    · intro property
      rw [important, important]
      rcases rel_cases (restored property) with ⟨now, earlier⟩ | ⟨e, e', now, earlier, alike⟩ <;> rw [now, earlier]
      exact congrArg some alike.important

variable {property : String} {before after : List Entry}

/-- Where the other properties are left alone, only the one that was changed has to be looked at. -/
theorem restored_of_others (others : ∀ other, sameProperty property.toList other.toList = false →
    Entries.find? other after = Entries.find? other before) :
    Entries.Restored before after ↔
      Option.Rel (Entry.Alike property) (Entries.find? property after) (Entries.find? property before) := by
  constructor
  · exact fun restored => restored property
  · intro own other
    cases same : sameProperty property.toList other.toList with
    | false =>
      rw [others other same]
      cases Entries.find? other before with
      | none => exact .none
      | some e => exact .some (.refl other e)
    | true =>
      -- Another name of the property: its declarations and their values are the same.
      have named (row : List Entry) : Entries.find? other row = Entries.find? property row := by
        unfold Entries.find?
        rw [show Entry.isOf other = Entry.isOf property from funext fun e => (isOf_congr same e).symm]
      have alike {e e' : Entry} (alike : e.Alike property e') : e.Alike other e' := by
        refine ⟨?_, alike.important⟩
        unfold Entry.value
        rw [← Style.Value.parse_congr same, ← Style.Value.parse_congr same]
        exact alike.value
      rw [named, named]
      rcases rel_cases own with ⟨now, earlier⟩ | ⟨e, e', now, earlier, own⟩ <;> rw [now, earlier]
      · exact .none
      · exact .some (alike own)

namespace Entries

/-- The value that a row has for a property. -/
def value? (property : String) (row : List Entry) : Option Style.Value :=
  (find? property row).map (Entry.value property)

/-- Sets a property to a value; one that cannot be written changes nothing. -/
def putValue (property : String) (value : Style.Value) (row : List Entry) : List Entry :=
  match value.text with
  | .ok text => put property text row
  | .error _ => row

variable {text : String} {value : Style.Value} {row : List Entry}

theorem putValue_eq (written : value.text = .ok text) : putValue property value row = put property text row := by
  unfold putValue
  rw [written]

/-- Where a property was set, what was written is read as its value. -/
theorem value?_put (property text : String) (row : List Entry) :
    value? property (put property text row) = some (Style.Value.parse property text) := by
  unfold value?
  rw [find?_put_self]
  exact congrArg some (Style.Value.parse_trim property text)

/-- Setting a property in a row in which only this property was changed restores the row it was changed from
just if the value is like the one from before, and what is declared now is as important as it was before. -/
theorem restored_put {changed : List Entry} (text : String)
    (others : ∀ other, sameProperty property.toList other.toList = false →
      find? other changed = find? other row) :
    Restored row (put property text changed) ↔ ∃ e, find? property row = some e ∧
      (Style.Value.parse property text).Alike (e.value property) ∧
        ((find? property changed).map Entry.important).getD false = e.important := by
  have others' : ∀ other, sameProperty property.toList other.toList = false →
      find? other (put property text changed) = find? other row := by
    intro other apart
    rw [find?_put_other text apart, others other apart]
  -- Only the property itself is left to compare.
  rw [restored_of_others others', find?_put_self]
  have importance : ((find? property changed).getD ⟨property.toList, [], false⟩).important =
      ((find? property changed).map Entry.important).getD false := by
    cases find? property changed <;> rfl
  rw [← importance]
  constructor
  · intro related
    rcases rel_cases related with ⟨none, -⟩ | ⟨e, e', now, earlier, alike⟩
    · cases none
    · obtain rfl := Option.some.inj now
      refine ⟨e', earlier, ?_, alike.important⟩
      rw [← Style.Value.parse_trim]
      exact alike.value
  · rintro ⟨e, earlier, alike, important⟩
    rw [earlier]
    refine .some ⟨?_, important⟩
    unfold Entry.value
    rw [Style.Value.parse_trim]
    exact alike

end Entries

end Sheet

end Retouch
