/-!
# Tables

Lists of keys with values, in the order in which the keys came first. Main statements: `get?_put` and
`get?_drop`, what is found after a change.
-/
namespace Retouch

/-- Keys with values; of equal keys the first one counts. -/
abbrev Table (κ α : Type) := List (κ × α)

namespace Table

variable {κ α : Type} [DecidableEq κ]

def get? (table : Table κ α) (key : κ) : Option α :=
  match table with
  | [] => none
  | (k, a) :: rest => if k = key then some a else get? rest key

def has (table : Table κ α) (key : κ) : Bool := (get? table key).isSome

/-- Sets a value: in its place when the key is there, at the end when it is new. -/
def put (table : Table κ α) (key : κ) (value : α) : Table κ α :=
  match table with
  | [] => [(key, value)]
  | (k, a) :: rest => if k = key then (key, value) :: rest else (k, a) :: put rest key value

/-- Removes a key. -/
def drop (table : Table κ α) (key : κ) : Table κ α := table.filter fun entry => entry.1 ≠ key

@[simp] theorem get?_nil (key : κ) : get? ([] : Table κ α) key = none := rfl

theorem get?_put (table : Table κ α) (key other : κ) (value : α) :
    get? (put table key value) other = if key = other then some value else get? table other := by
  induction table with
  | nil => rfl
  | cons entry rest ih =>
    unfold put
    by_cases here : entry.1 = key
    · subst here
      by_cases same : entry.1 = other <;> simp [get?, same]
    · rw [if_neg here]
      simp only [get?, ih]
      by_cases front : entry.1 = other
      · have far : ¬key = other := fun eq => here (front.trans eq.symm)
        simp [front, far]
      · simp [front]

theorem get?_drop (table : Table κ α) (key other : κ) :
    get? (drop table key) other = if key = other then none else get? table other := by
  induction table with
  | nil => simp [drop]
  | cons entry rest ih =>
    unfold drop at ih ⊢
    by_cases here : entry.1 = key
    · rw [List.filter_cons_of_neg (by simpa using here), ih]
      by_cases same : key = other
      · simp [same]
      · have far : ¬entry.1 = other := fun eq => same (here.symm.trans eq)
        simp [same, get?, far]
    · rw [List.filter_cons_of_pos (by simpa using here)]
      simp only [get?, ih]
      by_cases front : entry.1 = other
      · have far : ¬key = other := fun eq => here (front.trans eq.symm)
        simp [front, far]
      · simp [front]

end Table

end Retouch
