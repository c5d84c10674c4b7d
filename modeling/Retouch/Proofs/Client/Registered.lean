import Retouch.Client.Behavior
import Mathlib.Data.List.Nodup
import Mathlib.Data.List.Pairwise

/-!
# The order of behaviors

Behaviors are registered one by one. A call with an id that is taken fails and leaves the behaviors as they are; each
other call puts its behavior behind those of the same or a higher priority, which is where it comes to stand when it
is added to the end and all are sorted anew.

## Main statements

* `place_eq_mergeSort`: putting a behavior in its place is adding it to the end and sorting by priority.
* `Registered.step` and `registered_through`: what each call keeps, and so any row of calls.
* `order_throughout`: after any row of calls the behaviors are those of the calls that did not fail, in the order of
  their priorities and of their calls, and the first one that is for an element counts.
-/
namespace Retouch.Client.Behaviors

variable {behaviors : Behaviors} {behavior : Behavior} {row calls : List Behavior} {element : Element}

/-- What a call of `register` answers and leaves. One that fails leaves the behaviors as they are. -/
def call (behaviors : Behaviors) (behavior : Behavior) : Except DuplicateBehavior Unit × Behaviors :=
  match behaviors.register behavior with
  | .ok after => (.ok (), after)
  | .error e => (.error e, behaviors)

/-- The behaviors after a row of calls. -/
def through (behaviors : Behaviors) (calls : List Behavior) : Behaviors :=
  calls.foldl (fun behaviors behavior => (behaviors.call behavior).2) behaviors

/-- The behaviors of those calls of a row that do not fail, in their order. -/
def accepted (behaviors : Behaviors) : List Behavior → List Behavior
  | [] => []
  | behavior :: calls =>
    match (behaviors.call behavior).1 with
    | .ok () => behavior :: (behaviors.call behavior).2.accepted calls
    | .error _ => (behaviors.call behavior).2.accepted calls

/-- Of two behaviors the first one goes before the second one: it has a higher priority, or the same one and was
registered earlier. -/
def Precedes (calls : List Behavior) (a b : Behavior) : Prop :=
  b.priority < a.priority ∨ a.priority = b.priority ∧ [a, b].Sublist calls

/-- Behaviors are those of the calls that did not fail, with different ids, and in their order. -/
structure Registered (calls : List Behavior) (behaviors : Behaviors) : Prop where
  distinct : (behaviors.ordered.map Behavior.id).Nodup
  same : behaviors.ordered.Perm calls
  sorted : behaviors.ordered.Pairwise (Precedes calls)

/-! ### The place of a behavior -/

theorem place_perm (behavior : Behavior) (row : List Behavior) : (place behavior row).Perm (row ++ [behavior]) := by
  induction row with
  | nil => exact .refl _
  | cons first rest ih =>
    rw [place]
    split
    · exact (List.perm_append_singleton behavior (first :: rest)).symm
    · exact ih.cons first

theorem mem_place {other : Behavior} : other ∈ place behavior row ↔ other ∈ row ∨ other = behavior := by
  rw [(place_perm behavior row).mem_iff, List.mem_append, List.mem_singleton]

/-- All behaviors behind the new one have a lower priority, those before it do not. -/
theorem place_sorted (registered : ∀ other ∈ row, other ∈ calls) (sorted : row.Pairwise (Precedes calls)) :
    (place behavior row).Pairwise (Precedes (calls ++ [behavior])) := by
  have longer {a b : Behavior} (before : Precedes calls a b) : Precedes (calls ++ [behavior]) a b :=
    before.imp_right fun same => ⟨same.1, same.2.trans (List.sublist_append_left calls [behavior])⟩
  induction row with
  | nil => exact List.pairwise_singleton _ _
  | cons first rest ih =>
    obtain ⟨member, registered⟩ := List.forall_mem_cons.mp registered
    obtain ⟨before, sorted⟩ := List.pairwise_cons.mp sorted
    rw [place]
    split
    · rename_i lower
      refine List.pairwise_cons.mpr ⟨List.forall_mem_cons.mpr ⟨.inl lower, fun other later => .inl ?_⟩, ?_⟩
      · -- The first one is not of a lower priority than those behind it.
        rcases before other later with less | ⟨same, -⟩ <;> omega
      · exact List.pairwise_cons.mpr ⟨fun other later => longer (before other later), sorted.imp longer⟩
    · rename_i higher
      refine List.pairwise_cons.mpr ⟨fun other there => ?_, ih registered sorted⟩
      rcases mem_place.mp there with later | rfl
      · exact longer (before other later)
      · by_cases equal : first.priority = other.priority
        · exact .inr ⟨equal, (List.singleton_sublist.mpr member).append (.refl [other])⟩
        · exact .inl (by omega)

theorem place_of_lower (lower : ∀ other ∈ row, other.priority < behavior.priority) :
    place behavior row = behavior :: row := by
  cases row with
  | nil => rfl
  | cons first rest => rw [place, if_pos (lower first List.mem_cons_self)]

/-- Whether a behavior may stand before another one, by their priorities alone. -/
def mayPrecede (a b : Behavior) : Bool := b.priority ≤ a.priority

theorem mayPrecede_trans (a b c : Behavior) (ab : mayPrecede a b) (bc : mayPrecede b c) : mayPrecede a c := by
  simp only [mayPrecede, decide_eq_true_eq] at *
  omega

theorem mayPrecede_total (a b : Behavior) : mayPrecede a b || mayPrecede b a := by
  simp only [mayPrecede, Bool.or_eq_true, decide_eq_true_eq]
  omega

/-- A behavior put in its place in a sorted row stands where it does when it is added to the end and all are sorted:
the sort keeps the order of equals. -/
theorem place_eq_mergeSort (behavior : Behavior) (sorted : row.Pairwise fun a b => b.priority ≤ a.priority) :
    place behavior row = (row ++ [behavior]).mergeSort mayPrecede := by
  induction row with
  | nil => rw [place, List.nil_append, List.mergeSort_singleton]
  | cons first rest ih =>
    obtain ⟨before, sorted⟩ := List.pairwise_cons.mp sorted
    -- The first one of the row comes to stand behind those of a higher priority, and no others.
    obtain ⟨high, low, whole, others, higher⟩ :=
      List.mergeSort_cons mayPrecede_trans mayPrecede_total first (rest ++ [behavior])
    have order := List.pairwise_mergeSort mayPrecede_trans mayPrecede_total (first :: (rest ++ [behavior]))
    rw [whole] at order
    rw [← ih sorted] at others
    simp only [mayPrecede, Bool.not_eq_true', decide_eq_false_iff_not, Int.not_le] at higher
    have none_high {row : List Behavior} (among : ∀ other ∈ row, other ∈ high)
        (bound : ∀ other ∈ row, other.priority ≤ first.priority) : row = [] := by
      refine List.eq_nil_iff_forall_not_mem.mpr fun other member => ?_
      have := higher other (among other member)
      have := bound other member
      omega
    rw [List.cons_append, whole, place]
    split
    · rename_i lower
      rw [place_of_lower fun other member => Int.lt_of_le_of_lt (before other member) lower] at others
      cases high with
      | nil =>
        -- The new one would stand behind the first one.
        have behind : mayPrecede first behavior := by
          refine (List.pairwise_cons.mp order).1 behavior ?_
          rw [← List.nil_append low, ← others]
          exact List.mem_cons_self
        simp only [mayPrecede, decide_eq_true_eq] at behind
        omega
      | cons top high =>
        obtain ⟨rfl, rfl⟩ := List.cons.inj others
        obtain rfl : high = [] := none_high (fun other member => List.mem_cons_of_mem _ member)
          fun other member => before other (List.mem_append_left _ member)
        rfl
    · rename_i higher'
      obtain rfl : high = [] := by
        refine none_high (fun other member => member) fun other member => ?_
        have there : other ∈ place behavior rest := others ▸ List.mem_append_left low member
        rcases mem_place.mp there with later | rfl
        · exact before other later
        · omega
      rw [others]
      rfl

/-! ### Rows of calls -/

/-- The ids that are taken. -/
def ids (behaviors : Behaviors) : List String := behaviors.ordered.map Behavior.id

/-- A call fails just if the id is taken. -/
theorem call_eq (behaviors : Behaviors) (behavior : Behavior) :
    behaviors.call behavior =
      if behavior.id ∈ behaviors.ids then (.error ⟨behavior.id⟩, behaviors)
      else (.ok (), ⟨place behavior behaviors.ordered⟩) := by
  unfold call register
  cases found : behaviors.find? behavior.id with
  | some other =>
    have same : other.id = behavior.id := by simpa using List.find?_some found
    have taken : behavior.id ∈ behaviors.ids :=
      List.mem_map.mpr ⟨other, List.mem_of_find?_eq_some found, same⟩
    rw [if_pos taken]
  | none =>
    rw [if_neg]
    intro taken
    obtain ⟨other, member, same⟩ := List.mem_map.mp taken
    exact List.find?_eq_none.mp found other member (by simpa using same)

theorem through_cons (behaviors : Behaviors) (behavior : Behavior) (calls : List Behavior) :
    behaviors.through (behavior :: calls) = (behaviors.call behavior).2.through calls := rfl

/-- A call that fails is passed over. -/
theorem accepted_taken (taken : behavior.id ∈ behaviors.ids) :
    behaviors.accepted (behavior :: calls) = behaviors.accepted calls := by
  rw [accepted, call_eq, if_pos taken]

theorem accepted_new (new : behavior.id ∉ behaviors.ids) :
    behaviors.accepted (behavior :: calls) =
      behavior :: accepted ⟨place behavior behaviors.ordered⟩ calls := by
  rw [accepted, call_eq, if_neg new]

theorem mem_ids_through {id : String} :
    id ∈ (behaviors.through calls).ids ↔ id ∈ behaviors.ids ∨ id ∈ calls.map Behavior.id := by
  induction calls generalizing behaviors with
  | nil => simp [through]
  | cons behavior calls ih =>
    rw [through_cons, ih, call_eq, List.map_cons, List.mem_cons]
    split
    · rename_i taken
      constructor
      · exact Or.imp_right Or.inr
      · rintro (old | rfl | later)
        · exact .inl old
        · exact .inl taken
        · exact .inr later
    · have placed : id ∈ ids ⟨place behavior behaviors.ordered⟩ ↔ id ∈ behaviors.ids ∨ id = behavior.id := by
        rw [ids, ((place_perm behavior behaviors.ordered).map Behavior.id).mem_iff, List.map_append, List.mem_append]
        simp [ids]
      rw [placed, or_assoc]

/-- A call that does not fail keeps the order. -/
theorem Registered.step (registered : Registered row behaviors) (new : behavior.id ∉ behaviors.ids) :
    Registered (row ++ [behavior]) ⟨place behavior behaviors.ordered⟩ where
  distinct := by
    rw [((place_perm behavior behaviors.ordered).map Behavior.id).nodup_iff, List.map_append, List.map_singleton,
      (List.perm_append_singleton _ _).nodup_iff]
    exact List.nodup_cons.mpr ⟨new, registered.distinct⟩
  same := (place_perm behavior behaviors.ordered).trans (registered.same.append_right [behavior])
  sorted := place_sorted (fun _ member => registered.same.mem_iff.mp member) registered.sorted

theorem Registered.by_priority (registered : Registered row behaviors) :
    behaviors.ordered.Pairwise fun a b => b.priority ≤ a.priority := by
  refine registered.sorted.imp fun before => ?_
  rcases before with less | ⟨same, -⟩ <;> omega

/-- Any row of calls keeps the order. -/
theorem registered_through (registered : Registered row behaviors) (calls : List Behavior) :
    Registered (row ++ behaviors.accepted calls) (behaviors.through calls) := by
  induction calls generalizing row behaviors with
  | nil => rwa [accepted, List.append_nil]
  | cons behavior calls ih =>
    rw [through_cons, call_eq]
    split
    · rename_i taken
      rw [accepted_taken taken]
      exact ih registered
    · rename_i new
      rw [accepted_new new, List.append_cons]
      exact ih (registered.step new)

/-- The calls that fail may be left out. -/
theorem through_accepted (behaviors : Behaviors) (calls : List Behavior) :
    behaviors.through (behaviors.accepted calls) = behaviors.through calls := by
  induction calls generalizing behaviors with
  | nil => rfl
  | cons behavior calls ih =>
    rw [through_cons, call_eq]
    split
    · rename_i taken
      rw [accepted_taken taken]
      exact ih behaviors
    · rename_i new
      rw [accepted_new new, through_cons, call_eq, if_neg new]
      exact ih _

/-! ### The behavior that counts -/

/-- A behavior is for an element, and goes before all others of these calls that are. -/
structure Counts (calls : List Behavior) (element : Element) (behavior : Behavior) : Prop where
  member : behavior ∈ calls
  applies : behavior.appliesTo element
  first : ∀ other ∈ calls, other.appliesTo element → other = behavior ∨ Precedes calls behavior other

theorem Registered.counts (registered : Registered row behaviors)
    (found : behaviors.primary? element = some behavior) : Counts row element behavior := by
  obtain ⟨applies, before, behind, whole, none⟩ := List.find?_eq_some_iff_append.mp found
  have member : behavior ∈ behaviors.ordered := List.mem_of_find?_eq_some found
  refine ⟨registered.same.mem_iff.mp member, applies, fun other member applies => ?_⟩
  have sorted := registered.sorted
  have there := registered.same.mem_iff.mpr member
  rw [whole] at sorted there
  rcases List.mem_append.mp there with early | late
  · have := none other early
    simp [applies] at this
  · rcases List.mem_cons.mp late with same | late
    · exact .inl same
    · exact .inr ((List.pairwise_cons.mp (List.pairwise_append.mp sorted).2.1).1 other late)

theorem Registered.primary?_eq_none (registered : Registered row behaviors) :
    behaviors.primary? element = none ↔ ∀ other ∈ row, other.appliesTo element = false := by
  rw [primary?, List.find?_eq_none]
  simp only [registered.same.mem_iff, Bool.not_eq_true]

/-- After any row of calls the behaviors have different ids, are those of the calls that did not fail, and are in the
order of their priorities, with the order of the calls among equals. The next call fails just if one before it had the
same id; it changes nothing then, and may be left out, and otherwise it adds to the end and sorts anew. For each
element the first of all behaviors that are for it counts, which is the one that goes before all others of them. -/
theorem order_throughout (calls : List Behavior) :
    Registered (accepted {} calls) (through {} calls) ∧
      (∀ behavior, (through {} calls).call behavior =
        if behavior.id ∈ calls.map Behavior.id then (.error ⟨behavior.id⟩, through {} calls)
        else (.ok (), ⟨((through {} calls).ordered ++ [behavior]).mergeSort mayPrecede⟩)) ∧
      through {} (accepted {} calls) = through {} calls ∧
      ∀ element, (through {} calls).primary? element = ((through {} calls).allFor element).head? ∧
        (∀ behavior, (through {} calls).primary? element = some behavior →
          Counts (accepted {} calls) element behavior) ∧
        ((through {} calls).primary? element = none ↔
          ∀ behavior ∈ accepted {} calls, behavior.appliesTo element = false) := by
  have start : Registered [] {} := ⟨List.nodup_nil, .refl _, .nil⟩
  have registered : Registered (accepted {} calls) (through {} calls) := registered_through start calls
  refine ⟨registered, fun behavior => ?_, through_accepted {} calls, fun element => ?_⟩
  · have taken : behavior.id ∈ (through {} calls).ids ↔ behavior.id ∈ calls.map Behavior.id :=
      mem_ids_through.trans (or_iff_right List.not_mem_nil)
    rw [call_eq, place_eq_mergeSort behavior registered.by_priority]
    simp only [taken]
  · exact ⟨primary?_eq_head? _ element, fun behavior => registered.counts, registered.primary?_eq_none⟩

private def likewise (id : String) (priority : Int) : Behavior := { id, priority, appliesTo := fun _ => true }

private def likewiseCalls : List Behavior :=
  [likewise "low" 1, textEditing, likewise "high" 10, likewise "low" 20, likewise "top" 11]

/-- Of five calls the one with an id that is taken fails, and equals stay in the order of their calls. -/
theorem order_of_five :
    Registered (accepted {} likewiseCalls) (through {} likewiseCalls) ∧
      (through {} likewiseCalls).ids = ["top", "text-edit", "high", "low"] := by
  refine ⟨(order_throughout likewiseCalls).1, by decide +kernel⟩

end Retouch.Client.Behaviors
