import Retouch.Table

/-!
# Tables that are changed

What a change of one entry does to the keys of a table and to what is read off its entries.

## Main statements

* `put_new`: a value with a new key comes last; `filterMap_put`: one whose key is not read changes nothing that is read.
* `has_iff_mem` and `get?_eq_none_iff`: what is found is what is among the keys.
-/
namespace Retouch.Table

variable {κ α β : Type} [DecidableEq κ]

/-! ### Entries -/

/-- What is read off the entries of a table does not change with an entry that is not read. -/
theorem filterMap_put (read : κ × α → Option β) (table : Table κ α) (key : κ) (value : α)
    (hidden : ∀ a, read (key, a) = none) : (put table key value).filterMap read = table.filterMap read := by
  induction table with
  | nil => simp [put, hidden]
  | cons entry rest ih =>
    obtain ⟨k, a⟩ := entry
    unfold put
    by_cases same : k = key
    · subst same
      simp [hidden]
    · simp only [if_neg same, List.filterMap_cons, ih]

/-- Of two values that are set for a key the later one counts. -/
theorem put_put (table : Table κ α) (key : κ) (first second : α) :
    put (put table key first) key second = put table key second := by
  induction table with
  | nil => simp [put]
  | cons entry rest ih =>
    obtain ⟨k, a⟩ := entry
    by_cases same : k = key
    · simp [put, same]
    · simp [put, same, ih]

/-- What is found is an entry. -/
theorem mem_of_get? {table : Table κ α} {key : κ} {value : α} (found : get? table key = some value) :
    (key, value) ∈ table := by
  induction table with
  | nil => simp at found
  | cons entry rest ih =>
    obtain ⟨k, a⟩ := entry
    by_cases same : k = key
    · subst same
      simp only [get?, if_true, Option.some.injEq] at found
      exact found ▸ List.mem_cons_self
    · simp only [get?, if_neg same] at found
      exact List.mem_cons_of_mem _ (ih found)

/-- A key that is found is one of the keys. -/
theorem mem_keys_of_get? {table : Table κ α} {key : κ} {value : α} (found : get? table key = some value) :
    key ∈ table.map Prod.fst := List.mem_map_of_mem (mem_of_get? found)

/-- Entries are found as long as they are not taken out by their key. -/
theorem get?_filter (keep : κ → Bool) (table : Table κ α) (key : κ) :
    get? (table.filter fun entry => keep entry.1) key = if keep key then get? table key else none := by
  induction table with
  | nil => simp
  | cons entry rest ih =>
    obtain ⟨k, a⟩ := entry
    by_cases same : k = key
    · subst same
      by_cases kept : keep k = true
      · simp [get?, kept]
      · rw [List.filter_cons_of_neg (by simpa using kept), ih]
        simp [kept]
    · by_cases kept : keep k = true
      · rw [List.filter_cons_of_pos (by simpa using kept)]
        simp only [get?, if_neg same, ih]
      · rw [List.filter_cons_of_neg (by simpa using kept), ih]
        simp only [get?, if_neg same]

/-- An entry of the changed table is the new one or an old one. -/
theorem mem_put {table : Table κ α} {key : κ} {value : α} {entry : κ × α}
    (member : entry ∈ table.put key value) : entry = (key, value) ∨ entry ∈ table := by
  induction table with
  | nil => exact .inl (List.mem_singleton.mp member)
  | cons first rest ih =>
    unfold put at member
    split at member
    · rcases List.mem_cons.mp member with new | old
      · exact .inl new
      · exact .inr (List.mem_cons_of_mem _ old)
    · rcases List.mem_cons.mp member with here | later
      · exact .inr (here ▸ List.mem_cons_self)
      · exact (ih later).imp_right (List.mem_cons_of_mem _)

/-- A value with a new key comes last. -/
theorem put_new {table : Table κ α} {key : κ} (value : α) (new : ∀ entry ∈ table, entry.1 ≠ key) :
    table.put key value = table ++ [(key, value)] := by
  induction table with
  | nil => rfl
  | cons first rest ih =>
    unfold put
    rw [if_neg (new first List.mem_cons_self), ih fun entry member => new entry (List.mem_cons_of_mem _ member)]
    rfl

/-! ### Keys -/

section keys

variable (table : Table κ α)

theorem has_iff_mem (key : κ) : table.has key = true ↔ key ∈ table.map Prod.fst := by
  induction table with
  | nil => simp [has]
  | cons entry rest ih =>
    by_cases here : entry.1 = key
    · simp [has, get?, here]
    · have far : ¬key = entry.1 := fun same => here same.symm
      simpa [has, get?, here, far] using ih

theorem get?_eq_none_iff (key : κ) : table.get? key = none ↔ key ∉ table.map Prod.fst := by
  rw [← has_iff_mem, has, Bool.not_eq_true, Option.isSome_eq_false_iff, Option.isNone_iff_eq_none]

theorem keys_put_old {key : κ} (old : key ∈ table.map Prod.fst) (value : α) :
    (table.put key value).map Prod.fst = table.map Prod.fst := by
  induction table with
  | nil => cases old
  | cons entry rest ih =>
    unfold put
    by_cases here : entry.1 = key
    · simp [here]
    · have later : key ∈ rest.map Prod.fst := by
        rcases List.mem_cons.mp old with first | later
        · exact absurd first.symm here
        · exact later
      simp [here, ih later]

theorem keys_put_new {key : κ} (new : key ∉ table.map Prod.fst) (value : α) :
    (table.put key value).map Prod.fst = table.map Prod.fst ++ [key] := by
  have apart : ∀ entry ∈ table, entry.1 ≠ key := by
    rintro entry member rfl
    exact new (List.mem_map_of_mem member)
  simp [put_new value apart]

theorem keys_drop (key : κ) :
    (table.drop key).map Prod.fst = (table.map Prod.fst).filter fun other => other ≠ key := by
  rw [List.filter_map]
  rfl

theorem ne_of_absent {key : κ} (absent : table.get? key = none) : ∀ entry ∈ table, entry.1 ≠ key := by
  have out := (get?_eq_none_iff table key).mp absent
  rintro entry member rfl
  exact out (List.mem_map_of_mem member)

theorem drop_absent {key : κ} (absent : table.get? key = none) : table.drop key = table :=
  List.filter_eq_self.mpr fun entry member => by simpa using ne_of_absent table absent entry member

theorem drop_put_absent {key : κ} (absent : table.get? key = none) (value : α) :
    (table.put key value).drop key = table := by
  rw [put_new value (ne_of_absent table absent), drop, List.filter_append, ← drop, drop_absent table absent]
  simp

/-- All keys of a table are in it. -/
theorem filter_keys_self : (table.map Prod.fst).filter (fun key => table.has key) = table.map Prod.fst :=
  List.filter_eq_self.mpr fun key member => (has_iff_mem table key).mpr member

end keys

end Retouch.Table
