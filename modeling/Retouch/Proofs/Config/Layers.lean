import Mathlib.Data.List.Nodup
import Retouch.Config

/-!
# Layers of settings

What is found at the end of some names after an object was merged over another one is told by what both have there,
and by one thing more: a value without names in the later object hides all that the earlier one has behind it.

## Main statements

* `lookup_merge_eq`: what is found under one name.
* `layered_mergeValue`: what is found at the end of any names.
* `mergeValue_again`: to merge an object twice makes no difference.
* `layered_addFile`: so it is for each file of settings.
-/
namespace Retouch.Config

/-- The value has names of its own. -/
def IsObject (value : Json) : Prop := ∃ members, value = .obj members

/-- At every depth, an object has each of its names once. -/
inductive Distinct : Json → Prop
  | object {members : Json.Members} (names : (members.map Prod.fst).Nodup)
      (inner : ∀ member ∈ members, Distinct member.2) : Distinct (.obj members)
  | plain {value : Json} (flat : ¬IsObject value) : Distinct value

/-- On the way along the names stands a value without names. -/
def Blocked (value : Json) (path : List String) : Prop :=
  ∃ front stop, front <+: path ∧ front ≠ path ∧ find? value front = some stop ∧ ¬IsObject stop

/-- What one value over another one makes of what is found at the end of some names. -/
inductive Layered (base later : Json) (path : List String) : Option Json → Prop
  | both {members upper : Json.Members} (below : find? base path = some (.obj members))
      (above : find? later path = some (.obj upper)) : Layered base later path (some (.obj (merge members upper)))
  | later {value : Json} (above : find? later path = some value)
      (apart : ¬(IsObject value ∧ ∃ members, find? base path = some (.obj members))) :
      Layered base later path (some value)
  | hidden (absent : find? later path = none) (blocked : Blocked later path) : Layered base later path none
  | base (absent : find? later path = none) (clear : ¬Blocked later path) :
      Layered base later path (find? base path)

/-! ### Finding -/

variable {base value : Json} {members upper : Json.Members} {key : String} {path : List String}

theorem lookup_cons (name : String) (value : Json) (rest : Json.Members) (key : String) :
    Json.Members.lookup ((name, value) :: rest) key = if name = key then some value else rest.lookup key := by
  unfold Json.Members.lookup
  by_cases same : name = key
  · simp [same]
  · rw [if_neg same, List.find?_cons_of_neg (by simpa using same)]

theorem lookup_of_mem (names : (members.map Prod.fst).Nodup) (there : (key, value) ∈ members) :
    members.lookup key = some value := by
  induction members with
  | nil => cases there
  | cons member rest ih =>
    obtain ⟨name, other⟩ := member
    obtain ⟨absent, names⟩ := List.nodup_cons.mp names
    rw [lookup_cons]
    rcases List.mem_cons.mp there with same | later
    · cases same
      rw [if_pos rfl]
    · have apart : name ≠ key := by
        rintro rfl
        exact absent (List.mem_map.mpr ⟨(name, value), later, rfl⟩)
      rw [if_neg apart]
      exact ih names later

theorem mem_of_lookup (found : members.lookup key = some value) : (key, value) ∈ members := by
  induction members with
  | nil => cases found
  | cons member rest ih =>
    obtain ⟨name, other⟩ := member
    rw [lookup_cons] at found
    split at found
    next same =>
      cases found
      rw [same]
      exact List.mem_cons_self
    next => exact List.mem_cons_of_mem _ (ih found)

theorem isObject_obj (members : Json.Members) : IsObject (.obj members) := ⟨members, rfl⟩

theorem find?_cons (members : Json.Members) (key : String) (path : List String) :
    find? (.obj members) (key :: path) = (members.lookup key).bind (find? · path) := by
  rw [find?, Json.get?]
  cases members.lookup key <;> rfl

theorem find?_flat (flat : ¬IsObject value) (key : String) (path : List String) :
    find? value (key :: path) = none := by
  rw [find?]
  cases value with
  | obj members => exact absurd (isObject_obj members) flat
  | _ => rfl

theorem blocked_flat (flat : ¬IsObject value) (key : String) (path : List String) : Blocked value (key :: path) :=
  ⟨[], value, List.nil_prefix, by simp, rfl, flat⟩

/-- Behind the name of an object the way is blocked as it is behind the value of that name. -/
theorem blocked_cons : Blocked (.obj members) (key :: path) ↔ ∃ value, members.lookup key = some value ∧
    Blocked value path := by
  constructor
  · rintro ⟨front, stop, before, other, found, flat⟩
    cases front with
    | nil =>
      cases found
      exact absurd (isObject_obj members) flat
    | cons name front =>
      obtain ⟨rfl, below⟩ := List.cons_prefix_cons.mp before
      rw [find?_cons, Option.bind_eq_some_iff] at found
      obtain ⟨value, here, found⟩ := found
      exact ⟨value, here, front, stop, below, fun same => other (by rw [same]), found, flat⟩
  · rintro ⟨value, here, front, stop, before, other, found, flat⟩
    refine ⟨key :: front, stop, List.cons_prefix_cons.mpr ⟨rfl, before⟩, by simpa using other, ?_, flat⟩
    rw [find?_cons, here]
    exact found

/-! ### Merging -/

theorem mergeValue_flat (flat : ¬IsObject value) (base : Option Json) : mergeValue base value = value := by
  cases value with
  | obj members => exact absurd (isObject_obj members) flat
  | _ => rfl

theorem mergeValue_over (base : Option Json) (flat : ∀ members, base ≠ some (.obj members)) (value : Json) :
    mergeValue base value = value := by
  cases value with
  | obj upper =>
    unfold mergeValue
    split
    next members => exact absurd rfl (flat members)
    next => rfl
  | _ => rfl

/-- What is found under one name: the later value over the earlier one. -/
theorem lookup_merge_eq (base : Json.Members) (names : (upper.map Prod.fst).Nodup) (key : String) :
    (merge base upper).lookup key =
      match upper.lookup key with
      | none => base.lookup key
      | some value => some (mergeValue (base.lookup key) value) := by
  cases found : upper.lookup key with
  | none =>
    apply lookup_merge_of_not_mem
    intro member there same
    rw [Json.Members.lookup, Option.map_eq_none_iff, List.find?_eq_none] at found
    exact found member there (beq_iff_eq.mpr same)
  | some value =>
    rw [Json.Members.lookup, Option.map_eq_some_iff] at found
    obtain ⟨⟨name, _⟩, first, rfl⟩ := found
    obtain ⟨same, front, rest, rfl, before⟩ := List.find?_eq_some_iff_append.mp first
    obtain rfl : name = key := beq_iff_eq.mp same
    -- The name is not there again.
    rw [List.map_append, List.map_cons, List.nodup_append, List.nodup_cons] at names
    apply lookup_merge
    · intro member there same
      have apart := before member there
      rw [same] at apart
      simp at apart
    · intro member there same
      exact names.2.1.1 (List.mem_map.mpr ⟨member, there, same⟩)

/-- Where the earlier value has nothing, the later one decides. -/
theorem Layered.of_absent (later : Json) (absent : find? base path = none) :
    Layered base later path (find? later path) := by
  cases above : find? later path with
  | some value =>
    apply Layered.later above
    rintro ⟨-, members, below⟩
    rw [absent] at below
    cases below
  | none =>
    by_cases blocked : Blocked later path
    · exact .hidden above blocked
    · rw [← absent]
      exact .base above blocked

/-- What is made of the values under one name is made of the objects at that name. -/
theorem Layered.cons {later below : Json} {found : Option Json} (earlier : members.lookup key = some below)
    (here : upper.lookup key = some later) (layered : Layered below later path found) :
    Layered (.obj members) (.obj upper) (key :: path) found := by
  have base_eq : find? (.obj members) (key :: path) = find? below path := by rw [find?_cons, earlier]; rfl
  have later_eq : find? (.obj upper) (key :: path) = find? later path := by rw [find?_cons, here]; rfl
  have blocked_iff : Blocked (.obj upper) (key :: path) ↔ Blocked later path := by
    rw [blocked_cons, here]
    simp
  cases layered with
  | both below above => exact .both (base_eq.trans below) (later_eq.trans above)
  | later above apart =>
    apply Layered.later (later_eq.trans above)
    rwa [base_eq]
  | hidden absent blocked => exact .hidden (later_eq.trans absent) (blocked_iff.mpr blocked)
  | base absent clear =>
    rw [← base_eq]
    exact .base (later_eq.trans absent) (mt blocked_iff.mp clear)

/-- One value over another one, as a whole: the merge of two objects, or the later value. -/
theorem Layered.top (base later : Json) : Layered base later [] (some (mergeValue (some base) later)) := by
  by_cases object : IsObject later ∧ IsObject base
  · obtain ⟨⟨upper, rfl⟩, members, rfl⟩ := object
    exact .both rfl rfl
  · have same : mergeValue (some base) later = later := by
      by_cases named : IsObject later
      · apply mergeValue_over
        rintro members ⟨⟩
        exact object ⟨named, isObject_obj members⟩
      · exact mergeValue_flat named _
    rw [same]
    apply Layered.later rfl
    rintro ⟨here, members, ⟨⟩⟩
    exact object ⟨here, isObject_obj members⟩

/-- What is found at the end of any names after one value was put over another one. The induction is on the names; where
both values are objects, it goes on behind the first name. -/
theorem layered_mergeValue {later : Json} (distinct : Distinct later) (base : Json) (path : List String) :
    Layered base later path (find? (mergeValue (some base) later) path) := by
  induction path generalizing base later with
  | nil => exact .top base later
  | cons key rest ih =>
    cases distinct with
    | plain flat =>
      rw [mergeValue_flat flat, find?_flat flat]
      exact .hidden (find?_flat flat key rest) (blocked_flat flat key rest)
    | @object upper names inner =>
      by_cases object : IsObject base
      · obtain ⟨members, rfl⟩ := object
        rw [mergeValue, find?_cons, lookup_merge_eq members names]
        cases here : upper.lookup key with
        | none =>
          -- The later object does not say anything of this name, and does not hide it.
          have clear : ¬Blocked (.obj upper) (key :: rest) := by simp [blocked_cons, here]
          rw [← find?_cons]
          exact .base (by rw [find?_cons, here]; rfl) clear
        | some later =>
          cases earlier : Json.Members.lookup members key with
          | none =>
            have absent : find? (.obj members) (key :: rest) = none := by rw [find?_cons, earlier]; rfl
            have layered := Layered.of_absent (.obj upper) absent
            rw [find?_cons, here] at layered
            simpa only [mergeValue_over none (by simp)] using layered
          | some below => exact (ih (inner _ (mem_of_lookup here)) below).cons earlier here
      · rw [mergeValue_over _ (by rintro members ⟨⟩; exact object (isObject_obj members))]
        exact .of_absent _ (find?_flat object key rest)

/-! ### Merging again -/

/-- To set a member to what it is changes nothing. -/
theorem insert_lookup (found : members.lookup key = some value) : members.insert key value = members := by
  induction members with
  | nil => cases found
  | cons member rest ih =>
    obtain ⟨name, other⟩ := member
    rw [lookup_cons] at found
    unfold Json.Members.insert
    by_cases same : name = key
    · rw [if_pos same] at found
      cases found
      simp [same]
    · rw [if_neg same] at found
      rw [if_neg (by simpa using same), ih found]

/-- Members that are there already, and change nothing there, change nothing at all. -/
theorem merge_settled (settled : ∀ member ∈ upper, ∃ value, members.lookup member.1 = some value ∧
    mergeValue (some value) member.2 = value) : merge members upper = members := by
  induction upper with
  | nil => rfl
  | cons member rest ih =>
    obtain ⟨value, found, same⟩ := settled member (by simp)
    have kept : mergeMember members member = members := by
      rw [mergeMember, found, same]
      exact insert_lookup found
    rw [merge, kept]
    exact ih fun other there => settled other (by simp [there])

/-- To put a value over another one twice makes no difference. -/
theorem mergeValue_again {later : Json} (distinct : Distinct later) (base : Option Json) :
    mergeValue (some (mergeValue base later)) later = mergeValue base later := by
  induction distinct generalizing base with
  | plain flat => rw [mergeValue_flat flat, mergeValue_flat flat]
  | @object upper names inner ih =>
    -- The members that were merged are there, each with what it made of the member that was there before.
    have again (members : Json.Members) : merge (merge members upper) upper = merge members upper := by
      apply merge_settled
      rintro ⟨key, value⟩ there
      rw [lookup_merge_eq members names, lookup_of_mem names there]
      exact ⟨_, rfl, ih _ there _⟩
    by_cases object : ∃ members, base = some (.obj members)
    · obtain ⟨members, rfl⟩ := object
      rw [mergeValue, mergeValue, again]
    · -- The object stands as it is, so what each of its members makes of itself is to be looked at.
      have alone : merge upper upper = upper := by
        apply merge_settled
        rintro ⟨key, value⟩ there
        have itself := ih _ there none
        rw [mergeValue_over none (by simp)] at itself
        exact ⟨value, lookup_of_mem names there, itself⟩
      rw [mergeValue_over base (by simpa using object), mergeValue, alone]

/-! ### Files of settings -/

theorem Distinct.empty : Distinct (.obj []) := .object (by simp) (by simp)

theorem mem_insert {members : Json.Members} {key : String} {value : Json} {member : String × Json}
    (there : member ∈ members.insert key value) : member = (key, value) ∨ member ∈ members := by
  induction members with
  | nil => exact .inl (List.mem_singleton.mp there)
  | cons first rest ih =>
    unfold Json.Members.insert at there
    split at there
    next =>
      rcases List.mem_cons.mp there with same | later
      · exact .inl same
      · exact .inr (List.mem_cons_of_mem _ later)
    next =>
      rcases List.mem_cons.mp there with same | later
      · exact .inr (same ▸ List.mem_cons_self)
      · exact (ih later).imp_right (List.mem_cons_of_mem _)

theorem nodup_insert {members : Json.Members} (names : (members.map Prod.fst).Nodup) (key : String) (value : Json) :
    ((members.insert key value).map Prod.fst).Nodup := by
  induction members with
  | nil => exact List.nodup_singleton key
  | cons first rest ih =>
    obtain ⟨absent, names⟩ := List.nodup_cons.mp names
    unfold Json.Members.insert
    split
    next same =>
      rw [beq_iff_eq.mp same] at absent
      exact List.nodup_cons.mpr ⟨absent, names⟩
    next other =>
      refine List.nodup_cons.mpr ⟨?_, ih names⟩
      intro there
      obtain ⟨member, inside, same⟩ := List.mem_map.mp there
      rcases mem_insert inside with rfl | earlier
      · exact other (beq_iff_eq.mpr same.symm)
      · exact absent (List.mem_map.mpr ⟨member, earlier, same⟩)

theorem Distinct.insert {members : Json.Members} {value : Json} (distinct : Distinct (.obj members))
    (inner : Distinct value) (key : String) : Distinct (.obj (members.insert key value)) := by
  cases distinct with
  | plain flat => exact absurd (isObject_obj members) flat
  | object names each =>
    refine .object (nodup_insert names key value) fun member there => ?_
    rcases mem_insert there with rfl | earlier
    · exact inner
    · exact each member earlier

theorem eq_ok_of_bind {ε α β : Type} {x : Except ε α} {f : α → Except ε β} {b : β} (made : (x >>= f) = .ok b) :
    ∃ a, x = .ok a ∧ f a = .ok b := by
  cases x with
  | error e => cases made
  | ok a => exact ⟨a, rfl, made⟩

theorem distinct_number {cs rest : List Char} {found : Json} (read : Json.number cs = .ok (found, rest)) :
    Distinct found := by
  unfold Json.number at read
  apply Distinct.plain
  rintro ⟨members, rfl⟩
  dsimp only at read
  -- Whatever the sign and the digits are, what is made of them is an integer or a double.
  split at read
  all_goals split at read
  all_goals repeat' split at read
  all_goals cases read

theorem distinct_word {cs rest : List Char} {found : Json} (read : Json.word? cs = some (found, rest)) :
    Distinct found := by
  unfold Json.word? at read
  obtain ⟨entry, there, same⟩ := Option.map_eq_some_iff.mp read
  have listed := List.mem_of_find?_eq_some there
  apply Distinct.plain
  rintro ⟨members, rfl⟩
  simp only [List.mem_cons, List.not_mem_nil, or_false] at listed
  rcases listed with rfl | rfl | rfl | rfl | rfl | rfl <;> cases same

/-- What is read has each of its names once, as a name that comes again takes the place of the one before. -/
theorem distinct_read (fuel : Nat) : ∀ depth,
    (∀ cs found rest, Json.value depth fuel cs = .ok (found, rest) → Distinct found) ∧
    (∀ before cs found rest, Distinct (.obj before) → Json.members depth fuel before cs = .ok (found, rest) →
      Distinct found) ∧
    ∀ before cs found rest, Json.items depth fuel before cs = .ok (found, rest) → Distinct found := by
  -- The three of them call each other with one unit of fuel less.
  induction fuel with
  | zero =>
    intro depth
    refine ⟨?_, ?_, ?_⟩
    · rintro cs found rest ⟨⟩
    · rintro read cs found rest distinct ⟨⟩
    · rintro read cs found rest ⟨⟩
  | succ fuel ih =>
    intro depth
    refine ⟨?_, ?_, ?_⟩
    · intro cs found rest read
      unfold Json.value at read
      split at read
      · obtain ⟨⟨s, more⟩, -, same⟩ := eq_ok_of_bind read
        cases same
        exact .plain (by rintro ⟨_, ⟨⟩⟩)
      · split at read
        · cases read
        · split at read
          · cases read
            exact .empty
          · exact (ih _).2.1 _ _ _ _ .empty read
      · split at read
        · cases read
        · split at read
          · cases read
            exact .plain (by rintro ⟨_, ⟨⟩⟩)
          · exact (ih _).2.2 _ _ _ _ read
      · split at read
        · cases read
          exact distinct_word ‹_›
        · exact distinct_number read
    · intro given cs found rest distinct read
      unfold Json.members at read
      split at read
      · obtain ⟨⟨name, more⟩, -, read⟩ := eq_ok_of_bind read
        dsimp only at read
        split at read
        · obtain ⟨⟨item, more⟩, inner, read⟩ := eq_ok_of_bind read
          dsimp only at read
          have longer := distinct.insert ((ih depth).1 _ _ _ inner) name
          split at read
          · cases read
            exact longer
          · exact (ih _).2.1 _ _ _ _ longer read
          · cases read
        · cases read
      · cases read
    · intro given cs found rest read
      unfold Json.items at read
      obtain ⟨⟨item, more⟩, -, read⟩ := eq_ok_of_bind read
      dsimp only at read
      split at read
      · cases read
        exact .plain (by rintro ⟨_, ⟨⟩⟩)
      · exact (ih _).2.2 _ _ _ _ read
      · cases read

/-- The settings of a file have each of their names once. -/
theorem distinct_readMembers {bytes : Text.Bytes} {members : Json.Members} (read : readMembers bytes = .ok members) :
    Distinct (.obj members) := by
  unfold readMembers at read
  obtain ⟨text, -, read⟩ := eq_ok_of_bind read
  split at read
  next found =>
    cases read
    unfold Json.readChars at found
    split at found
    next => cases found
    next =>
      split at found
      next => cases found
      next value rest taken =>
        split at found
        next =>
          cases found
          exact (distinct_read _ _).1 _ _ _ taken
        next => cases found
  next => cases read
  next => cases read

/-- A file that is there is a layer over the settings before it. -/
theorem layered_addFile {disk : Files.Disk} {config after : Json.Members} {scope : Scope} {path : Files.Path}
    (added : addFile disk config scope path = .ok after) : after = config ∨ ∃ later, Distinct (.obj later) ∧
      after = merge config later ∧ ∀ names, Layered (.obj config) (.obj later) names (find? (.obj after) names) := by
  unfold addFile at added
  split at added
  next =>
    cases added
    exact .inl rfl
  next bytes found =>
    right
    cases read : readMembers bytes with
    | error fault =>
      rw [read] at added
      cases added
    | ok later =>
      rw [read] at added
      cases added
      have distinct := distinct_readMembers read
      exact ⟨later, distinct, rfl, layered_mergeValue distinct (.obj config)⟩

end Retouch.Config
