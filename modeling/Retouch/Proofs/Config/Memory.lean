import Retouch.Proofs.Config.Layers

/-!
# Merging in memory

Objects in memory are shared: the copy of an object leads to the same inner objects, and so does the result of a merge.
Step by step, a merge copies the earlier object and writes to the copies only. So it makes what `merge` says, and
leaves every object as it is that was there before.

## Main statements

* `Merges.keeps`: no earlier object is changed.
* `Merges.unique`: there is one way to merge.
* `Stands.merges`: it comes to an end, and makes what `merge` says.
-/
namespace Retouch.Config

/-- What a name of an object leads to: a value without names, or the place of another object. -/
inductive Entry where
  | plain (value : Json)
  | object (place : Nat)

/-- The names of an object in memory, in order. -/
abbrev Fields := List (String × Entry)

/-- The objects in memory, each at a place of its own. -/
abbrev Memory := List Fields

/-- Sets a name: in its place when it is there, at the end when it is new. -/
def Fields.insert : Fields → String → Entry → Fields
  | [], key, entry => [(key, entry)]
  | field :: rest, key, entry =>
    if field.1 == key then (key, entry) :: rest else field :: insert rest key entry

/-- Sets a name of the object at some place. -/
def Memory.assign (memory : Memory) (place : Nat) (key : String) (entry : Entry) : Memory :=
  memory.modify place (Fields.insert · key entry)

/-- The names of a later object are set in a copy of the earlier one, one after the other. Where both have an object,
these two are merged before, into a copy that is put behind all objects. -/
inductive Fills : Memory → Nat → Fields → Memory → Prop
  | done (memory : Memory) (copy : Nat) : Fills memory copy [] memory
  | merged {memory made final : Memory} {copy place upper : Nat} {key : String} {fields inner entries rest : Fields}
      (here : memory[copy]? = some fields) (found : fields.lookup key = some (.object place))
      (below : memory[place]? = some inner) (above : memory[upper]? = some entries)
      (fills : Fills (memory ++ [inner]) memory.length entries made)
      (more : Fills (made.assign copy key (.object memory.length)) copy rest final) :
      Fills memory copy ((key, .object upper) :: rest) final
  | taken {memory final : Memory} {copy : Nat} {key : String} {entry : Entry} {fields rest : Fields}
      (here : memory[copy]? = some fields)
      (apart : ∀ place upper, ¬(fields.lookup key = some (.object place) ∧ entry = .object upper))
      (more : Fills (memory.assign copy key entry) copy rest final) :
      Fills memory copy ((key, entry) :: rest) final

/-- A merge of the objects at two places, the later one over the earlier one. -/
inductive Merges (memory : Memory) (place upper : Nat) (final : Memory) : Prop
  | copy {fields entries : Fields} (below : memory[place]? = some fields) (above : memory[upper]? = some entries)
      (fills : Fills (memory ++ [fields]) memory.length entries final)

/-! ### What stays -/

variable {memory made final other : Memory} {place upper copy : Nat} {fields inner entries : Fields} {key : String}
  {entry : Entry}

@[simp] theorem length_assign (memory : Memory) (place : Nat) (key : String) (entry : Entry) :
    (memory.assign place key entry).length = memory.length := List.length_modify _ _ _

theorem getElem?_assign_of_ne {far : Nat} (apart : far ≠ place) (key : String) (entry : Entry) :
    (memory.assign place key entry)[far]? = memory[far]? :=
  List.getElem?_modify_ne _ memory apart.symm

theorem getElem?_assign (here : memory[place]? = some fields) (key : String) (entry : Entry) :
    (memory.assign place key entry)[place]? = some (fields.insert key entry) := by
  rw [Memory.assign, List.getElem?_modify_eq, here]
  rfl

/-- No object is changed but the copy. -/
theorem Fills.keeps (run : Fills memory copy entries final) : memory.length ≤ final.length ∧
    ∀ place < memory.length, place ≠ copy → final[place]? = memory[place]? := by
  induction run with
  | done => exact ⟨Nat.le_refl _, fun _ _ _ => rfl⟩
  | @merged memory made final copy _ _ _ _ _ _ _ here found below above fills more ih ih' =>
    -- The inner merge writes to a place behind all others, and only then the name is set.
    rw [List.length_append, List.length_singleton] at ih
    rw [length_assign] at ih'
    constructor
    · omega
    · intro place before apart
      rw [ih'.2 place (by omega) apart, getElem?_assign_of_ne apart, ih.2 place (by omega) (by omega),
        List.getElem?_append_left before]
  | taken here apart more ih =>
    rw [length_assign] at ih
    constructor
    · exact ih.1
    · intro place before apart
      rw [ih.2 place before apart, getElem?_assign_of_ne apart]

/-- Nothing is changed before the new copy. -/
theorem Fills.keeps_before (run : Fills (memory ++ [inner]) memory.length entries final)
    (before : place < memory.length) : final[place]? = memory[place]? := by
  have keeps := run.keeps.2
  rw [List.length_append, List.length_singleton] at keeps
  rw [keeps place (by omega) (by omega), List.getElem?_append_left before]

/-- No earlier object is changed. -/
theorem Merges.keeps (run : Merges memory place upper final) : memory <+: final := by
  obtain ⟨below, above, fills⟩ := run
  rw [List.prefix_iff_getElem?]
  intro i before
  rw [fills.keeps_before before, List.getElem?_eq_getElem before]

/-- What a name leads to in the copy, and in the later object, decides which step comes next. -/
theorem Fills.unique (run : Fills memory copy entries final) (run' : Fills memory copy entries other) :
    final = other := by
  induction run generalizing other with
  | done =>
    cases run'
    rfl
  | merged here found below above fills more ih ih' =>
    cases run' with
    | merged here' found' below' above' fills' more' =>
      cases here.symm.trans here'
      cases found.symm.trans found'
      cases below.symm.trans below'
      cases above.symm.trans above'
      cases ih fills'
      exact ih' more'
    | taken here' apart more' =>
      cases here.symm.trans here'
      exact absurd ⟨found, rfl⟩ (apart _ _)
  | taken here apart more ih =>
    cases run' with
    | merged here' found below above fills more' =>
      cases here.symm.trans here'
      exact absurd ⟨found, rfl⟩ (apart _ _)
    | taken here' apart' more' => exact ih more'

/-- There is one way to merge. -/
theorem Merges.unique (run : Merges memory place upper final) (run' : Merges memory place upper other) :
    final = other := by
  obtain ⟨below, above, fills⟩ := run
  obtain ⟨below', above', fills'⟩ := run'
  cases below.symm.trans below'
  cases above.symm.trans above'
  exact fills.unique fills'

/-! ### What stands in memory -/

/-- The objects that may be looked at. -/
abbrev View := Nat → Option Fields

/-- The names in memory lead to the values of the members, in the same order. -/
inductive Lists (view : View) : Fields → Json.Members → Prop
  | nil : Lists view [] []
  | plain {key : String} {value : Json} {fields : Fields} {members : Json.Members} (flat : ¬IsObject value)
      (rest : Lists view fields members) : Lists view ((key, .plain value) :: fields) ((key, value) :: members)
  | object {key : String} {place : Nat} {inner fields : Fields} {upper members : Json.Members}
      (here : view place = some inner) (inside : Lists view inner upper) (rest : Lists view fields members) :
      Lists view ((key, .object place) :: fields) ((key, .obj upper) :: members)

/-- What a name leads to is the value. -/
inductive Stands (view : View) : Entry → Json → Prop
  | plain {value : Json} (flat : ¬IsObject value) : Stands view (.plain value) value
  | object {place : Nat} {fields : Fields} {members : Json.Members} (here : view place = some fields)
      (inside : Lists view fields members) : Stands view (.object place) (.obj members)

/-- All that one may look at in the first view is the same in the second one. -/
def Within (view view' : View) : Prop := ∀ place fields, view place = some fields → view' place = some fields

theorem Within.trans {first second third : View} (left : Within first second) (right : Within second third) :
    Within first third := fun place fields shown => right place fields (left place fields shown)

variable {view view' : View} {members : Json.Members} {value : Json}

theorem Lists.mono (lists : Lists view fields members) (within : Within view view') : Lists view' fields members := by
  induction lists with
  | nil => exact .nil
  | plain flat rest ih => exact .plain flat ih
  | object here inside rest ih ih' => exact .object (within _ _ here) ih ih'

theorem Stands.mono (stands : Stands view entry value) (within : Within view view') : Stands view' entry value := by
  cases stands with
  | plain flat => exact .plain flat
  | object here inside => exact .object (within _ _ here) (inside.mono within)

theorem Lists.cons (stands : Stands view entry value) (rest : Lists view fields members) :
    Lists view ((key, entry) :: fields) ((key, value) :: members) := by
  cases stands with
  | plain flat => exact .plain flat rest
  | object here inside => exact .object here inside rest

theorem Lists.insert (lists : Lists view fields members) (stands : Stands view entry value) (key : String) :
    Lists view (fields.insert key entry) (members.insert key value) := by
  induction lists with
  | nil => exact .cons stands .nil
  | plain flat rest ih =>
    unfold Fields.insert Json.Members.insert
    split
    · exact .cons stands rest
    · exact .plain flat ih
  | object here inside rest _ ih =>
    unfold Fields.insert Json.Members.insert
    split
    · exact .cons stands rest
    · exact .object here inside ih

/-- A name is there in memory just where it is in the object, and leads to the value that it has there. -/
theorem Lists.lookup (lists : Lists view fields members) (key : String) :
    Option.Rel (Stands view) (fields.lookup key) (members.lookup key) := by
  have first {name : String} {entry : Entry} {value : Json} {fields : Fields} {members : Json.Members}
      (stands : Stands view entry value) (ih : Option.Rel (Stands view) (fields.lookup key) (members.lookup key)) :
      Option.Rel (Stands view) (List.lookup key ((name, entry) :: fields))
        (Json.Members.lookup ((name, value) :: members) key) := by
    rw [lookup_cons, List.lookup_cons]
    by_cases same : name = key
    · rw [same, beq_self_eq_true, if_pos rfl]
      exact .some stands
    · rw [beq_false_of_ne (Ne.symm same), if_neg same]
      exact ih
  induction lists with
  | nil => exact .none
  | plain flat rest ih => exact first (.plain flat) ih
  | object here inside rest _ ih => exact first (.object here inside) ih

/-! ### What a merge makes -/

/-- The object at the place, which no view shows, has the members. -/
structure Filled (view : View) (memory : Memory) (copy : Nat) (fields : Fields) (members : Json.Members) : Prop where
  settled : Within view (memory[·]?)
  hidden : view copy = none
  here : memory[copy]? = some fields
  lists : Lists view fields members

/-- The view, and all objects that are new. -/
def View.grown (view : View) (memory final : Memory) : View := fun place =>
  if place < memory.length then view place else final[place]?

theorem View.grown_assign (view : View) (memory : Memory) (place : Nat) (key : String) (entry : Entry)
    (final : Memory) : view.grown (memory.assign place key entry) final = view.grown memory final := by
  funext place
  rw [View.grown, View.grown, length_assign]

namespace Filled

theorem inside (filled : Filled view memory copy fields members) : copy < memory.length :=
  (List.getElem?_eq_some_iff.mp filled.here).1

theorem within_grown (filled : Filled view memory copy fields members) (final : Memory) :
    Within view (view.grown memory final) := by
  intro place fields shown
  have before : place < memory.length := (List.getElem?_eq_some_iff.mp (filled.settled _ _ shown)).1
  rw [View.grown, if_pos before]
  exact shown

/-- A name of the object is set. -/
theorem assign (filled : Filled view memory copy fields members) (stands : Stands view entry value) (key : String) :
    Filled view (memory.assign copy key entry) copy (fields.insert key entry) (members.insert key value) where
  settled place fields shown := by
    have apart : place ≠ copy := by
      rintro rfl
      rw [filled.hidden] at shown
      cases shown
    show (memory.assign copy key entry)[place]? = some fields
    rw [getElem?_assign_of_ne apart]
    exact filled.settled _ _ shown
  hidden := filled.hidden
  here := getElem?_assign filled.here key entry
  lists := filled.lists.insert stands key

/-- An object is copied to the end. -/
theorem append (settled : Within view (memory[·]?)) (lists : Lists view fields members) :
    Filled view (memory ++ [fields]) memory.length fields members where
  settled place fields shown := by
    have before := settled place fields shown
    show (memory ++ [_])[place]? = some fields
    rw [List.getElem?_append_left (List.getElem?_eq_some_iff.mp before).1]
    exact before
  hidden := by
    -- Only objects in memory are shown, and the new place is behind them.
    by_contra shown
    obtain ⟨fields, shown⟩ := Option.ne_none_iff_exists'.mp shown
    have inside := (List.getElem?_eq_some_iff.mp (settled _ _ shown)).1
    omega
  here := by simp
  lists := lists

/-- The object is still the same after inner objects were merged behind it. -/
theorem after (filled : Filled view memory copy fields members)
    (run : Fills (memory ++ [inner]) memory.length entries made) :
    Filled (view.grown memory made) made copy fields members where
  settled place fields shown := by
    -- Of the objects shown, the earlier ones are kept, and the new ones are shown as they are.
    unfold View.grown at shown
    split at shown
    next before =>
      show made[place]? = some fields
      rw [run.keeps_before before]
      exact filled.settled _ _ shown
    next => exact shown
  hidden := by
    rw [View.grown, if_pos filled.inside]
    exact filled.hidden
  here := by
    rw [run.keeps_before filled.inside]
    exact filled.here
  lists := filled.lists.mono (filled.within_grown made)

end Filled

/-- The object at the place has the members in the end. -/
def Makes (view : View) (memory : Memory) (copy : Nat) (final : Memory) (members : Json.Members) : Prop :=
  ∃ fields, final[copy]? = some fields ∧ Lists (view.grown memory final) fields members

/-- A name leads to the copy that two inner objects were merged into. -/
theorem Filled.merged {upper : Json.Members} (filled : Filled view memory copy fields members)
    (run : Fills (memory ++ [inner]) memory.length entries made)
    (makes : Makes view (memory ++ [inner]) memory.length made upper) (key : String) :
    Filled (view.grown memory made) (made.assign copy key (.object memory.length)) copy
      (fields.insert key (.object memory.length)) (members.insert key (.obj upper)) := by
  obtain ⟨result, at_, lists⟩ := makes
  have shown : view.grown memory made memory.length = some result := by
    rw [View.grown, if_neg (Nat.lt_irrefl _)]
    exact at_
  -- The new place itself is shown now.
  have within : Within (view.grown (memory ++ [inner]) made) (view.grown memory made) := by
    intro place fields shown
    unfold View.grown at shown
    split at shown
    next => exact filled.within_grown made place fields shown
    next beyond =>
      rw [List.length_append] at beyond
      rw [View.grown, if_neg (by omega)]
      exact shown
  exact (filled.after run).assign (.object shown (lists.mono within)) key

/-- What is made after two inner objects were merged is made from the start. -/
theorem Makes.after {upper : Json.Members} {rest : Fields}
    (makes : Makes (view.grown memory made) (made.assign copy key entry) copy final upper)
    (filled : Filled view memory copy fields members) (run : Fills (memory ++ [inner]) memory.length entries made)
    (more : Fills (made.assign copy key entry) copy rest final) :
    Makes view memory copy final upper := by
  obtain ⟨result, at_, lists⟩ := makes
  have longer := run.keeps.1
  have keeps := more.keeps.2
  rw [List.length_append, List.length_singleton] at longer
  rw [length_assign] at keeps
  refine ⟨result, at_, lists.mono ?_⟩
  intro place fields shown
  rw [View.grown_assign] at shown
  by_cases before : place < memory.length
  · rw [View.grown, if_pos (by omega)] at shown
    rwa [View.grown, if_pos before] at shown ⊢
  · rw [View.grown, if_neg before]
    by_cases new : place < made.length
    · -- The new object was not touched any more.
      have apart : place ≠ copy := fun same => before (same ▸ filled.inside)
      rw [View.grown, if_pos new, View.grown, if_neg before] at shown
      rw [keeps place new apart, getElem?_assign_of_ne apart]
      exact shown
    · rwa [View.grown, if_neg new] at shown

/-- All names are set, and what comes out of it is what `merge` says. The induction is on the later object, whose inner
objects are merged into other copies. -/
theorem Lists.fills {given : View} {upper : Json.Members} (later : Lists given entries upper) (within : Within given view)
    (filled : Filled view memory copy fields members) :
    ∃ final, Fills memory copy entries final ∧ Makes view memory copy final (merge members upper) := by
  induction later generalizing view memory copy fields members with
  | nil =>
    refine ⟨memory, .done memory copy, fields, filled.here, ?_⟩
    exact filled.lists.mono (filled.within_grown memory)
  | @plain key value _ _ flat rest ih =>
    have next := filled.assign (.plain flat) key
    obtain ⟨final, run, makes⟩ := ih within next
    refine ⟨final, .taken filled.here (by rintro place upper ⟨-, ⟨⟩⟩) run, ?_⟩
    rw [merge, mergeMember, mergeValue_flat flat]
    rwa [Makes, View.grown_assign] at makes
  | @object key upper inner fields' members' _ here inside rest ih ih' =>
    have alike := filled.lists.lookup key
    by_cases both : ∃ place, List.lookup key fields = some (.object place)
    · -- The two objects are merged behind all others, and the copy leads to what this makes.
      obtain ⟨place, found⟩ := both
      rw [found] at alike
      generalize earlier : members.lookup key = value at alike
      cases alike with
      | @some _ value stands =>
        cases stands with
        | @object _ inner' members' below inside' =>
          obtain ⟨made, run, makes⟩ := ih within (.append filled.settled inside')
          have next := filled.merged run makes key
          obtain ⟨final, more, makes⟩ := ih' (within.trans (filled.within_grown made)) next
          have above := filled.settled _ _ (within _ _ here)
          refine ⟨final, .merged filled.here found (filled.settled _ _ below) above run more, ?_⟩
          rw [merge, mergeMember, earlier, mergeValue]
          exact makes.after filled run more
    · have apart : ∀ members', members.lookup key ≠ some (.obj members') := by
        intro members' earlier
        rw [earlier] at alike
        generalize found : List.lookup key fields = entry at alike
        cases alike with
        | some stands =>
          cases stands with
          | plain flat => exact flat (isObject_obj members')
          | object => exact both ⟨_, found⟩
      have next := filled.assign (.object (within _ _ here) (inside.mono within)) key
      obtain ⟨final, run, makes⟩ := ih' within next
      refine ⟨final, .taken filled.here (fun place _ same => both ⟨place, same.1⟩) run, ?_⟩
      rw [merge, mergeMember, mergeValue_over _ apart]
      rwa [Makes, View.grown_assign] at makes

/-- A merge comes to an end, and makes what `merge` says. -/
theorem Stands.merges {base later : Json.Members} (below : Stands (memory[·]?) (.object place) (.obj base))
    (above : Stands (memory[·]?) (.object upper) (.obj later)) : ∃ final, Merges memory place upper final ∧
      Stands (final[·]?) (.object memory.length) (.obj (merge base later)) := by
  cases below with
  | object here inside =>
    cases above with
    | object here' inside' =>
      have all : Within (memory[·]?) (memory[·]?) := fun _ _ shown => shown
      obtain ⟨final, run, result, at_, lists⟩ := inside'.fills all (.append all inside)
      refine ⟨final, .copy here here' run, .object at_ (lists.mono ?_)⟩
      intro place fields shown
      unfold View.grown at shown
      split at shown
      next =>
        have before := (List.getElem?_eq_some_iff.mp shown).1
        show final[place]? = some fields
        rw [run.keeps_before before]
        exact shown
      next => exact shown

/-! ### Layers -/

theorem within_of_keeps (keeps : memory <+: final) : Within (memory[·]?) (final[·]?) := by
  intro place fields shown
  obtain ⟨before, rfl⟩ := List.getElem?_eq_some_iff.mp shown
  exact List.prefix_iff_getElem?.mp keeps place before

/-- What is found after an object was merged over another one; to merge it twice makes no difference; and in memory, a
merge makes a new object, and none that was there before is another one afterwards. -/
theorem merge_layers (base later : Json.Members) (distinct : Distinct (.obj later)) :
    (∀ path, Layered (.obj base) (.obj later) path (find? (.obj (merge base later)) path)) ∧
    merge (merge base later) later = merge base later ∧
    ∀ (memory : Memory) (place upper : Nat), Stands (memory[·]?) (.object place) (.obj base) →
      Stands (memory[·]?) (.object upper) (.obj later) →
      ∃ final, (∀ other, Merges memory place upper other ↔ other = final) ∧
        Stands (final[·]?) (.object memory.length) (.obj (merge base later)) ∧
        Stands (final[·]?) (.object place) (.obj base) ∧ memory <+: final := by
  have value : mergeValue (some (.obj base)) (.obj later) = .obj (merge base later) := rfl
  refine ⟨?_, ?_, ?_⟩
  · intro path
    rw [← value]
    exact layered_mergeValue distinct (.obj base) path
  · have again := mergeValue_again distinct (some (.obj base))
    rw [value, mergeValue] at again
    exact Json.obj.inj again
  · intro memory place upper below above
    obtain ⟨final, run, made⟩ := below.merges above
    refine ⟨final, ?_, made, below.mono (within_of_keeps run.keeps), run.keeps⟩
    intro other
    constructor
    · exact fun run' => run'.unique run
    · rintro rfl
      exact run

/-- One port over another one: the object around it keeps what else it has. -/
theorem merge_layers_port :
    let base : Json.Members := [("server", .obj [("host", .str "::1"), ("port", .int 4000)])]
    let later : Json.Members := [("server", .obj [("port", .int 6000)]), ("watcher", .null)]
    let memory : Memory := [[("server", .object 1)], [("host", .plain (.str "::1")), ("port", .plain (.int 4000))],
      [("server", .object 3), ("watcher", .plain .null)], [("port", .plain (.int 6000))]]
    Distinct (.obj later) ∧
    Layered (.obj base) (.obj later) ["server", "host"] (some (.str "::1")) ∧
    Layered (.obj base) (.obj later) ["watcher", "enabled"] none ∧
    merge (merge base later) later = merge base later ∧
    Stands (memory[·]?) (.object 0) (.obj base) ∧ Stands (memory[·]?) (.object 2) (.obj later) ∧
    ∃ final, (∀ other, Merges memory 0 2 other ↔ other = final) ∧
      Stands (final[·]?) (.object 4) (.obj (merge base later)) ∧ Stands (final[·]?) (.object 0) (.obj base) ∧
      memory <+: final := by
  intro base later memory
  have distinct : Distinct (.obj later) := by
    refine .object (by decide) fun member there => ?_
    rcases List.mem_cons.mp there with rfl | there
    · refine .object (by decide) fun member there => ?_
      obtain rfl := List.mem_singleton.mp there
      exact .plain (by rintro ⟨_, ⟨⟩⟩)
    · obtain rfl := List.mem_singleton.mp there
      exact .plain (by rintro ⟨_, ⟨⟩⟩)
  have below : Stands (memory[·]?) (.object 0) (.obj base) :=
    .object rfl (.object rfl (.plain (by rintro ⟨_, ⟨⟩⟩) (.plain (by rintro ⟨_, ⟨⟩⟩) .nil)) .nil)
  have above : Stands (memory[·]?) (.object 2) (.obj later) :=
    .object rfl (.object rfl (.plain (by rintro ⟨_, ⟨⟩⟩) .nil) (.plain (by rintro ⟨_, ⟨⟩⟩) .nil))
  obtain ⟨layered, again, merges⟩ := merge_layers base later distinct
  exact ⟨distinct, layered ["server", "host"], layered ["watcher", "enabled"], again, below, above,
    merges memory 0 2 below above⟩

end Retouch.Config
