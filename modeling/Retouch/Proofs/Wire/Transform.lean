import Mathlib.Data.List.Forall2
import Retouch.Wire.Transform

/-!
# Requests there and back

When an object passes its checks as a whole, each of its members was there under one of its names and passed its own
check, and the whole was made of what the checks gave.

A style value that was written as an object is read back as it was, just if its references and tuples do not nest
deeper than values are read, and no color in it is more than opaque or less than transparent. Places, changes, requests
and what reverts a transform are written as objects too, and read back as they were if they are proper: the file has a
name, line and column are counted from one, the property has a name, and the style values fit. Whatever was read from
an object fits and is proper.

## Main statements

* `field_eq_ok_iff`: a member passes when it is there and what stands there passes.
* `request_eq_ok`: a request that passes was an object, and each part of it was read from a member.
* `Value.Fits.read`, `fits_of_read`: what fits is read back, and what was read fits.
* `valueAt_toJson_iff`: a value is read back just if it fits.
* `locator_toJson_iff`, `change_toJson_iff`: places and changes are read back just if they are proper.
* `request_eq_ok_of_members`: an object with these members is read as the request.
* `undoData_toJson`: what reverts a transform is read back, its change by its own kind.
-/
namespace Retouch.Wire

/-! ### Members that pass their checks -/

section Members

variable {α β : Type}

namespace Checked

theorem map_eq_ok_iff {f : α → β} {x : Checked α} {b : β} : f <$> x = .ok b ↔ ∃ a, x = .ok a ∧ f a = b := by
  cases x <;> simp [Functor.map, map]

theorem seq_eq_ok_iff {f : Checked (α → β)} {x : Checked α} {b : β} :
    f <*> x = .ok b ↔ ∃ g a, f = .ok g ∧ x = .ok a ∧ g a = b := by
  cases f <;> cases x <;> simp [Seq.seq, seq]

theorem under_eq_ok_iff {place : Place} {x : Checked α} {a : α} : x.under place = .ok a ↔ x = .ok a := by
  cases x <;> simp [under]

theorem result_eq_ok_iff {title : String} {x : Checked α} {a : α} : x.result title = .ok a ↔ x = .ok a := by
  cases x <;> simp [result]

end Checked

/-- A member passes when it is there and what stands there passes. -/
theorem field_eq_ok_iff {members : Json.Members} {names : List String} {check : Json → Checked α} {a : α} :
    field members names check = .ok a ↔
      ∃ name, names.find? members.has = some name ∧ check ((members.lookup name).getD .null) = .ok a := by
  unfold field
  cases names.find? members.has with
  | none => simp [Checked.under, Checked.fail]
  | some name => simp [Checked.under_eq_ok_iff]

/-- An object passes when its members do. -/
theorem model_eq_ok_iff {name : String} {check : Json.Members → Checked α} {input : Json} {a : α} :
    model name check input = .ok a ↔ ∃ members, input = .obj members ∧ check members = .ok a := by
  cases input <;> simp [model, Checked.fail]

theorem filledString_eq_ok_iff {input : Json} {s : String} :
    filledString input = .ok s ↔ input = .str s ∧ s ≠ "" := by
  cases input with
  | str t =>
    by_cases empty : t = ""
    · simp only [filledString, empty, if_true, Checked.fail, reduceCtorEq, Json.str.injEq, false_iff]
      rintro ⟨rfl, filled⟩
      exact filled rfl
    · simp only [filledString, empty, if_false, Checked.ok.injEq, Json.str.injEq]
      exact ⟨fun same => ⟨same, same ▸ empty⟩, And.left⟩
  | _ => simp [filledString, Checked.fail]

/-- A request that passes was an object, and each part of it was read from a member. -/
theorem request_eq_ok {kind : TransformKind} {input : Json} {r : Request}
    (read : request kind input = .ok r) :
    ∃ members, input = .obj members ∧ field members ["id"] filledString = .ok r.id ∧
      field members ["target"] locator = .ok r.target ∧
      field members ["change"] (change kind) = .ok r.change := by
  obtain ⟨members, rfl, parts⟩ := model_eq_ok_iff.mp read
  obtain ⟨_, changed, parts, changeRead, made⟩ := Checked.seq_eq_ok_iff.mp parts
  obtain ⟨_, target, parts, targetRead, withTarget⟩ := Checked.seq_eq_ok_iff.mp parts
  obtain ⟨_, _, parts, -, withKind⟩ := Checked.seq_eq_ok_iff.mp parts
  obtain ⟨id, idRead, withId⟩ := Checked.map_eq_ok_iff.mp parts
  subst withId withKind withTarget made
  exact ⟨members, rfl, idRead, targetRead, changeRead⟩

/-- A change that passes is of the kind it was checked for. -/
theorem changeMembers_kind {kind : TransformKind} {members : Json.Members} {c : Change}
    (read : changeMembers kind members = .ok c) : c.kind = kind := by
  cases kind with
  | cssUpdate | cssAdd =>
    obtain ⟨_, _, parts, -, rfl⟩ := Checked.seq_eq_ok_iff.mp read
    obtain ⟨_, _, parts, -, made⟩ := Checked.seq_eq_ok_iff.mp parts
    obtain ⟨_, -, start⟩ := Checked.map_eq_ok_iff.mp parts
    subst start
    subst made
    rfl
  | cssRemove | textUpdate =>
    obtain ⟨_, _, parts, -, rfl⟩ := Checked.seq_eq_ok_iff.mp read
    obtain ⟨_, -, rfl⟩ := Checked.map_eq_ok_iff.mp parts
    rfl

/-- A request that passes asks for a change of the kind it was checked for. -/
theorem request_kind {kind : TransformKind} {input : Json} {r : Request} (read : request kind input = .ok r) :
    r.change.kind = kind := by
  obtain ⟨members, -, -, -, changed⟩ := request_eq_ok read
  obtain ⟨name, -, passed⟩ := field_eq_ok_iff.mp changed
  obtain ⟨inner, -, made⟩ := model_eq_ok_iff.mp passed
  exact changeMembers_kind made

end Members

open Retouch.Style

variable {α : Type}

/-! ### Members and items -/

/-- A member that is there under its first name. -/
theorem field_head {members : Json.Members} {name : String} {names : List String} {input : Json}
    {check : Json → Checked α} {a : α} (there : members.lookup name = some input) (passed : check input = .ok a) :
    field members (name :: names) check = .ok a := by
  refine field_eq_ok_iff.mpr ⟨name, ?_, by rw [there]; exact passed⟩
  have has : members.has name = true := by
    obtain ⟨member, found, -⟩ := Option.map_eq_some_iff.mp there
    have named : (member.1 == name) = true := by simpa using List.find?_some found
    exact List.any_eq_true.mpr ⟨member, List.mem_of_find?_eq_some found, named⟩
  exact List.find?_cons_of_pos has

theorem fieldOr_head {members : Json.Members} {name : String} {names : List String} {input : Json}
    {check : Json → Checked α} {default a : α} (there : members.lookup name = some input)
    (passed : check input = .ok a) : fieldOr members (name :: names) default check = .ok a := by
  have same : field members (name :: names) check = .ok a := field_head there passed
  unfold field at same
  unfold fieldOr
  split
  · rename_i found
    simpa [found] using same
  · rename_i missing
    simp [missing, Checked.under, Checked.fail] at same

theorem fieldOr_eq_ok {members : Json.Members} {names : List String} {check : Json → Checked α} {default a : α}
    (read : fieldOr members names default check = .ok a) : a = default ∨ ∃ input, check input = .ok a := by
  unfold fieldOr at read
  split at read
  · exact .inr ⟨_, Checked.under_eq_ok_iff.mp read⟩
  · exact .inl (Checked.ok.inj read).symm

theorem all_itemsFrom_eq_ok {check : Json → Checked α} {start : Nat} {items : List Json} {found : List α} :
    Checked.all (Checked.itemsFrom check start items) = .ok found ↔
      List.Forall₂ (fun item a => check item = .ok a) items found := by
  induction items generalizing start found with
  | nil => simp [Checked.itemsFrom, Checked.all, eq_comm]
  | cons item rest ih =>
    rw [Checked.itemsFrom, Checked.all, List.forall₂_cons_left_iff]
    have parts : Checked.seq (Checked.map List.cons ((check item).under (.index start)))
        (Checked.all (Checked.itemsFrom check (start + 1) rest)) = .ok found ↔
          ∃ a others, check item = .ok a ∧
            Checked.all (Checked.itemsFrom check (start + 1) rest) = .ok others ∧ a :: others = found := by
      cases check item <;> cases Checked.all (Checked.itemsFrom check (start + 1) rest) <;>
        simp [Checked.under, Checked.map, Checked.seq]
    rw [parts]
    constructor
    · rintro ⟨a, others, read, tail, rfl⟩
      exact ⟨a, others, read, ih.mp tail, rfl⟩
    · rintro ⟨a, others, read, tail, rfl⟩
      exact ⟨a, others, read, ih.mpr tail, rfl⟩

theorem exists_of_forall₂ {β : Type} {R : α → β → Prop} {items : List α} {found : List β}
    (each : List.Forall₂ R items found) {b : β} (member : b ∈ found) : ∃ a ∈ items, R a b := by
  induction each with
  | nil => cases member
  | cons here _ ih =>
    rcases List.mem_cons.mp member with rfl | later
    · exact ⟨_, List.mem_cons_self, here⟩
    · obtain ⟨a, there, related⟩ := ih later
      exact ⟨a, List.mem_cons_of_mem _ there, related⟩

theorem tuple_eq_ok_iff {check : Json → Checked α} {input : Json} {found : List α} :
    tuple check input = .ok found ↔
      ∃ items, input = .arr items ∧ List.Forall₂ (fun item a => check item = .ok a) items found := by
  cases input with
  | arr items => simp [tuple, all_itemsFrom_eq_ok]
  | _ => simp [tuple, Checked.fail]

theorem oneOf_ok {names : List String} {ofName? : String → Option α} {name : String} {a : α}
    (known : ofName? name = some a) : oneOf names ofName? (.str name) = .ok a := by
  simp [oneOf, known]

/-- An opacity is not outside its range. -/
def Inside (alpha : Float) : Prop := ¬1.0 < alpha ∧ ¬alpha < 0.0

theorem unitFloat_ok {alpha : Float} (inside : Inside alpha) : unitFloat (.real alpha) = .ok alpha := by
  simp [unitFloat, float, Checked.andThen, inside.1, inside.2]

theorem inside_of_unitFloat {input : Json} {alpha : Float} (read : unitFloat input = .ok alpha) : Inside alpha := by
  unfold unitFloat at read
  cases number : float input with
  | faults found =>
    rw [number] at read
    cases read
  | ok x =>
    rw [number] at read
    dsimp only [Checked.andThen] at read
    split at read
    · cases read
    · split at read
      · cases read
      · rename_i most least
        obtain rfl := Checked.ok.inj read
        exact ⟨most, least⟩

/-! ### Values -/

/-- The references and tuples of a value nest no deeper than this, and its opacities are inside their range. -/
inductive Fits : Nat → Value → Prop where
  | unit {levels : Nat} (size : Float) (u : LengthUnit) : Fits levels (.unit size u)
  | number {levels : Nat} (size : Float) : Fits levels (.number size)
  | keyword {levels : Nat} (word : String) : Fits levels (.keyword word)
  | color {levels : Nat} (c : Color) (inside : Inside c.alpha) : Fits levels (.color c)
  | var {levels : Nat} (name : String) : Fits (levels + 1) (.var name none)
  | fallback {levels : Nat} (name : String) {value : Value} (fits : Fits levels value) :
    Fits (levels + 1) (.var name (some value))
  | tuple {levels : Nat} {values : List Value} (fits : ∀ value ∈ values, Fits levels value) :
    Fits (levels + 1) (.tuple values)
  | unparsed {levels : Nat} (text : String) : Fits levels (.unparsed text)

theorem Fits.succ {levels : Nat} {value : Value} (fits : Fits levels value) : Fits (levels + 1) value := by
  induction fits with
  | color c inside => exact .color c inside
  | fallback name _ ih => exact .fallback name ih
  | tuple _ ih => exact .tuple ih
  | _ => constructor

theorem Fits.mono {levels more : Nat} {value : Value} (fits : Fits levels value) (le : levels ≤ more) :
    Fits more value := by
  induction le with
  | refl => exact fits
  | step _ ih => exact ih.succ

theorem allToJson_eq (values : List Value) : Value.allToJson values = values.map Value.toJson := by
  induction values with
  | nil => rfl
  | cons value rest ih => rw [Value.allToJson, ih, List.map_cons]

theorem channels_toJson (c : Channels) : channels c.toJson = .ok c := rfl

/-- No value is written as null. -/
theorem optional_toJson {check : Json → Checked Value} {value : Value} (read : check value.toJson = .ok value) :
    optional check value.toJson = .ok (some value) := by
  have object : ∃ members, value.toJson = .obj members := by
    cases value with
    | var name fallback => cases fallback <;> exact ⟨_, rfl⟩
    | color c => exact ⟨_, rfl⟩
    | _ => exact ⟨_, rfl⟩
  obtain ⟨members, object⟩ := object
  rw [object] at read ⊢
  simp [optional, read, Checked.map]

/-- A value that fits is read back as it was. -/
theorem Fits.read {levels : Nat} {value : Value} (fits : Fits levels value) :
    valueAt levels value.toJson = .ok value := by
  induction fits with
  | unit size u =>
    have unit : lengthUnit (.str u.name) = .ok u := oneOf_ok (LengthUnit.ofName?_name u)
    unfold valueAt Value.toJson
    refine Checked.under_eq_ok_iff.mpr (Checked.seq_eq_ok_iff.mpr ⟨_, u, ?_, field_head rfl unit, rfl⟩)
    exact Checked.map_eq_ok_iff.mpr ⟨size, field_head rfl rfl, rfl⟩
  | number size =>
    unfold valueAt Value.toJson
    exact Checked.under_eq_ok_iff.mpr (Checked.map_eq_ok_iff.mpr ⟨size, field_head rfl rfl, rfl⟩)
  | keyword word =>
    unfold valueAt Value.toJson
    exact Checked.under_eq_ok_iff.mpr (Checked.map_eq_ok_iff.mpr ⟨word, field_head rfl rfl, rfl⟩)
  | color c inside =>
    have space : colorSpace (.str c.space.name) = .ok c.space := oneOf_ok (ColorSpace.ofName?_name c.space)
    unfold valueAt Value.toJson Color.toJson
    refine Checked.under_eq_ok_iff.mpr (Checked.seq_eq_ok_iff.mpr
      ⟨fun alpha => .color ⟨c.space, c.channels, alpha⟩, c.alpha, ?_, ?_, rfl⟩)
    · refine Checked.seq_eq_ok_iff.mpr ⟨fun channels alpha => .color ⟨c.space, channels, alpha⟩, c.channels, ?_,
        field_head rfl (channels_toJson _), rfl⟩
      exact Checked.map_eq_ok_iff.mpr ⟨c.space, field_head rfl space, rfl⟩
    · exact fieldOr_head rfl (unitFloat_ok inside)
  | var name =>
    unfold valueAt Value.toJson
    refine Checked.under_eq_ok_iff.mpr (Checked.seq_eq_ok_iff.mpr ⟨_, none, ?_, rfl, rfl⟩)
    exact Checked.map_eq_ok_iff.mpr ⟨name, field_head rfl rfl, rfl⟩
  | fallback name _ ih =>
    unfold valueAt Value.toJson
    refine Checked.under_eq_ok_iff.mpr (Checked.seq_eq_ok_iff.mpr ⟨_, some _, ?_, ?_, rfl⟩)
    · exact Checked.map_eq_ok_iff.mpr ⟨name, field_head rfl rfl, rfl⟩
    · exact fieldOr_head rfl (optional_toJson ih)
  | tuple _ ih =>
    unfold valueAt Value.toJson
    refine Checked.under_eq_ok_iff.mpr (Checked.map_eq_ok_iff.mpr ⟨_, field_head rfl ?_, rfl⟩)
    refine tuple_eq_ok_iff.mpr ⟨_, rfl, ?_⟩
    rw [allToJson_eq, List.forall₂_map_left_iff]
    exact List.forall₂_same.mpr ih
  | unparsed text =>
    unfold valueAt Value.toJson
    exact Checked.under_eq_ok_iff.mpr (Checked.map_eq_ok_iff.mpr ⟨text, field_head rfl rfl, rfl⟩)

/-- What was read from an object fits. -/
theorem fits_of_read {levels : Nat} {input : Json} {value : Value} (read : valueAt levels input = .ok value) :
    Fits levels value := by
  -- On the levels, for a fallback or a member is read with one level fewer; the cases are the types in turn.
  induction levels using Nat.strongRecOn generalizing input value with
  | ind levels ih =>
  unfold valueAt at read
  split at read
  case h_2 => cases read
  split at read
  · cases read
  · obtain ⟨_, u, first, -, rfl⟩ := Checked.seq_eq_ok_iff.mp (Checked.under_eq_ok_iff.mp read)
    obtain ⟨size, -, rfl⟩ := Checked.map_eq_ok_iff.mp first
    exact .unit size u
  · obtain ⟨size, -, rfl⟩ := Checked.map_eq_ok_iff.mp (Checked.under_eq_ok_iff.mp read)
    exact .number size
  · obtain ⟨word, -, rfl⟩ := Checked.map_eq_ok_iff.mp (Checked.under_eq_ok_iff.mp read)
    exact .keyword word
  · obtain ⟨_, alpha, parts, opacity, rfl⟩ := Checked.seq_eq_ok_iff.mp (Checked.under_eq_ok_iff.mp read)
    obtain ⟨_, coordinates, first, -, rfl⟩ := Checked.seq_eq_ok_iff.mp parts
    obtain ⟨space, -, rfl⟩ := Checked.map_eq_ok_iff.mp first
    refine .color ⟨space, coordinates, alpha⟩ ?_
    -- An opacity that is left out is that of an opaque color.
    rcases fieldOr_eq_ok opacity with rfl | ⟨_, passed⟩
    · exact (⟨by decide +kernel, by decide +kernel⟩ : Inside 1.0)
    · exact inside_of_unitFloat passed
  · split at read
    · cases read
    · rename_i levels
      obtain ⟨_, inner, first, second, rfl⟩ := Checked.seq_eq_ok_iff.mp (Checked.under_eq_ok_iff.mp read)
      obtain ⟨name, -, rfl⟩ := Checked.map_eq_ok_iff.mp first
      rcases fieldOr_eq_ok second with rfl | ⟨input, passed⟩
      · exact .var name
      · cases inner with
        | none => exact .var name
        | some value =>
          unfold optional at passed
          split at passed
          · cases passed
          · obtain ⟨_, found, same⟩ := Checked.map_eq_ok_iff.mp passed
            obtain rfl := Option.some.inj same
            exact .fallback name (ih levels (Nat.lt_succ_self _) found)
  · split at read
    · cases read
    · rename_i levels
      obtain ⟨values, found, rfl⟩ := Checked.map_eq_ok_iff.mp (Checked.under_eq_ok_iff.mp read)
      obtain ⟨_, -, passed⟩ := field_eq_ok_iff.mp found
      obtain ⟨items, -, each⟩ := tuple_eq_ok_iff.mp passed
      refine .tuple fun value member => ?_
      obtain ⟨item, -, read⟩ := exists_of_forall₂ each member
      exact ih levels (Nat.lt_succ_self _) read
  · obtain ⟨text, -, rfl⟩ := Checked.map_eq_ok_iff.mp (Checked.under_eq_ok_iff.mp read)
    exact .unparsed text
  · cases read

/-- A value is read back from its object just if it fits. -/
theorem valueAt_toJson_iff (levels : Nat) (value : Value) :
    valueAt levels value.toJson = .ok value ↔ Fits levels value :=
  ⟨fits_of_read, Fits.read⟩

end Retouch.Wire

namespace Retouch

/-- The file of a place has a name, and its line and column are counted from one. -/
structure SourceLocator.Proper (l : SourceLocator) : Prop where
  file : l.file ≠ ""
  line : 0 < l.line
  column : 0 < l.column

/-- The property of a change has a name, and its values fit. -/
inductive Change.Proper : Change → Prop where
  | cssUpdate {property : String} {prior new : Style.Value} (named : property ≠ "")
      (expected : Wire.Fits Wire.nestingLimit prior) (fits : Wire.Fits Wire.nestingLimit new) :
    Change.Proper (.cssUpdate property prior new)
  | cssAdd {property : String} {prior : Option Style.Value} {new : Style.Value} (named : property ≠ "")
      (expected : ∀ value, prior = some value → Wire.Fits Wire.nestingLimit value)
      (fits : Wire.Fits Wire.nestingLimit new) : Change.Proper (.cssAdd property prior new)
  | cssRemove {property : String} {prior : Style.Value} (named : property ≠ "")
      (expected : Wire.Fits Wire.nestingLimit prior) : Change.Proper (.cssRemove property prior)
  | textUpdate (prior new : String) : Change.Proper (.textUpdate prior new)

namespace Wire

open Style

/-! ### Places -/

theorem filledString_ok {s : String} (filled : s ≠ "") : filledString (.str s) = .ok s :=
  filledString_eq_ok_iff.mpr ⟨rfl, filled⟩

theorem positive_ok {n : Nat} (counted : 0 < n) : positive (.int n) = .ok n := by
  simp [positive, int, Checked.andThen, counted]

theorem positive_of_read {input : Json} {n : Nat} (read : positive input = .ok n) : 0 < n := by
  unfold positive at read
  cases number : int input with
  | faults found =>
    rw [number] at read
    cases read
  | ok m =>
    rw [number] at read
    dsimp only [Checked.andThen] at read
    split at read
    · obtain rfl := Checked.ok.inj read
      omega
    · cases read

theorem strings_ok (texts : List String) : tuple string (strings texts) = .ok texts := by
  refine tuple_eq_ok_iff.mpr ⟨_, rfl, ?_⟩
  rw [List.forall₂_map_left_iff]
  exact List.forall₂_same.mpr fun _ _ => rfl

/-- What was read as a place is proper. -/
theorem proper_of_locator {input : Json} {l : SourceLocator} (read : locator input = .ok l) : l.Proper := by
  obtain ⟨members, -, parts⟩ := model_eq_ok_iff.mp read
  -- The fields are checked in order, so they are taken apart from the last one.
  obtain ⟨_, _, parts, -, made⟩ := Checked.seq_eq_ok_iff.mp parts
  obtain ⟨_, _, parts, -, withSheet⟩ := Checked.seq_eq_ok_iff.mp parts
  obtain ⟨_, column, parts, columnRead, withColumn⟩ := Checked.seq_eq_ok_iff.mp parts
  obtain ⟨_, line, parts, lineRead, withLine⟩ := Checked.seq_eq_ok_iff.mp parts
  obtain ⟨file, fileRead, withFile⟩ := Checked.map_eq_ok_iff.mp parts
  subst withFile withLine withColumn withSheet made
  obtain ⟨_, -, fileRead⟩ := field_eq_ok_iff.mp fileRead
  obtain ⟨_, -, lineRead⟩ := field_eq_ok_iff.mp lineRead
  obtain ⟨_, -, columnRead⟩ := field_eq_ok_iff.mp columnRead
  exact ⟨(filledString_eq_ok_iff.mp fileRead).2, positive_of_read lineRead, positive_of_read columnRead⟩

/-- A place is read back from its object just if it is proper. -/
theorem locator_toJson_iff (l : SourceLocator) : locator l.toJson = .ok l ↔ l.Proper := by
  refine ⟨proper_of_locator, fun proper => ?_⟩
  obtain ⟨file, line, column, styleFile, selectors⟩ := l
  have line_ok := positive_ok proper.line
  have column_ok := positive_ok proper.column
  unfold locator SourceLocator.toJson
  refine model_eq_ok_iff.mpr ⟨_, rfl, Checked.seq_eq_ok_iff.mpr
    ⟨SourceLocator.mk file line column styleFile, selectors, ?_, fieldOr_head rfl (strings_ok _), rfl⟩⟩
  refine Checked.seq_eq_ok_iff.mpr ⟨SourceLocator.mk file line column, styleFile, ?_, fieldOr_head rfl rfl, rfl⟩
  refine Checked.seq_eq_ok_iff.mpr ⟨SourceLocator.mk file line, column, ?_, field_head rfl column_ok, rfl⟩
  refine Checked.seq_eq_ok_iff.mpr ⟨SourceLocator.mk file, line, ?_, field_head rfl line_ok, rfl⟩
  exact Checked.map_eq_ok_iff.mpr ⟨file, field_head rfl (filledString_ok proper.file), rfl⟩

/-! ### Changes -/

/-- A value of a change, under any of its names. -/
theorem fits_of_field {members : Json.Members} {names : List String} {v : Value}
    (read : field members names value = .ok v) : Fits nestingLimit v := by
  obtain ⟨_, -, read⟩ := field_eq_ok_iff.mp read
  exact fits_of_read read

theorem named_of_field {members : Json.Members} {names : List String} {s : String}
    (read : field members names filledString = .ok s) : s ≠ "" := by
  obtain ⟨_, -, read⟩ := field_eq_ok_iff.mp read
  exact (filledString_eq_ok_iff.mp read).2

/-- What was read as a change is proper. -/
theorem proper_of_changeMembers {kind : TransformKind} {members : Json.Members} {c : Change}
    (read : changeMembers kind members = .ok c) : c.Proper := by
  cases kind with
  | cssUpdate =>
    obtain ⟨_, new, parts, newRead, made⟩ := Checked.seq_eq_ok_iff.mp read
    obtain ⟨_, prior, parts, priorRead, withPrior⟩ := Checked.seq_eq_ok_iff.mp parts
    obtain ⟨property, named, withProperty⟩ := Checked.map_eq_ok_iff.mp parts
    subst withProperty withPrior made
    exact .cssUpdate (named_of_field named) (fits_of_field priorRead) (fits_of_field newRead)
  | cssAdd =>
    obtain ⟨_, new, parts, newRead, made⟩ := Checked.seq_eq_ok_iff.mp read
    obtain ⟨_, prior, parts, priorRead, withPrior⟩ := Checked.seq_eq_ok_iff.mp parts
    obtain ⟨property, named, withProperty⟩ := Checked.map_eq_ok_iff.mp parts
    subst withProperty withPrior made
    refine .cssAdd (named_of_field named) (fun v there => ?_) (fits_of_field newRead)
    subst there
    -- A value is expected only where one was given, and then it was read.
    rcases fieldOr_eq_ok priorRead with none | ⟨input, passed⟩
    · cases none
    · unfold optional at passed
      split at passed
      · cases passed
      · obtain ⟨_, found, same⟩ := Checked.map_eq_ok_iff.mp passed
        exact Option.some.inj same ▸ fits_of_read found
  | cssRemove =>
    obtain ⟨_, prior, parts, priorRead, made⟩ := Checked.seq_eq_ok_iff.mp read
    obtain ⟨property, named, withProperty⟩ := Checked.map_eq_ok_iff.mp parts
    subst withProperty made
    exact .cssRemove (named_of_field named) (fits_of_field priorRead)
  | textUpdate =>
    obtain ⟨_, new, parts, -, made⟩ := Checked.seq_eq_ok_iff.mp read
    obtain ⟨prior, -, withPrior⟩ := Checked.map_eq_ok_iff.mp parts
    subst withPrior made
    exact .textUpdate prior new

/-- The members of a change. -/
def membersOf (c : Change) : Json.Members :=
  match c.toJson with
  | .obj members => members
  | _ => []

theorem toJson_eq_obj (c : Change) : c.toJson = .obj (membersOf c) := by
  cases c <;> rfl

/-- A proper change is read back by its own kind. -/
theorem changeMembers_toJson {c : Change} (proper : c.Proper) : changeMembers c.kind (membersOf c) = .ok c := by
  cases proper with
  | @cssUpdate property prior new named expected fits =>
    refine Checked.seq_eq_ok_iff.mpr ⟨Change.cssUpdate property prior, new, ?_, field_head rfl fits.read, rfl⟩
    refine Checked.seq_eq_ok_iff.mpr ⟨Change.cssUpdate property, prior, ?_, field_head rfl expected.read, rfl⟩
    exact Checked.map_eq_ok_iff.mpr ⟨property, field_head rfl (filledString_ok named), rfl⟩
  | @cssAdd property prior new named expected fits =>
    refine Checked.seq_eq_ok_iff.mpr ⟨Change.cssAdd property prior, new, ?_, field_head rfl fits.read, rfl⟩
    refine Checked.seq_eq_ok_iff.mpr ⟨Change.cssAdd property, prior, ?_, ?_, rfl⟩
    · exact Checked.map_eq_ok_iff.mpr ⟨property, field_head rfl (filledString_ok named), rfl⟩
    · -- A value that is not expected is written as null.
      cases prior with
      | none => exact fieldOr_head rfl rfl
      | some prior => exact fieldOr_head rfl (optional_toJson (expected prior rfl).read)
  | @cssRemove property prior named expected =>
    refine Checked.seq_eq_ok_iff.mpr ⟨Change.cssRemove property, prior, ?_, field_head rfl expected.read, rfl⟩
    exact Checked.map_eq_ok_iff.mpr ⟨property, field_head rfl (filledString_ok named), rfl⟩
  | textUpdate prior new =>
    refine Checked.seq_eq_ok_iff.mpr ⟨Change.textUpdate prior, new, ?_, field_head rfl rfl, rfl⟩
    exact Checked.map_eq_ok_iff.mpr ⟨prior, field_head rfl rfl, rfl⟩

/-- A change is read back by its own kind just if it is proper. -/
theorem change_toJson_iff (c : Change) : change c.kind c.toJson = .ok c ↔ c.Proper := by
  rw [toJson_eq_obj]
  exact ⟨proper_of_changeMembers, changeMembers_toJson⟩

/-! ### Requests -/

theorem lookup_eq (members : Json.Members) (key : String) : List.lookup key members = members.lookup key := by
  induction members with
  | nil => rfl
  | cons member rest ih =>
    rw [List.lookup_cons, ih]
    unfold Json.Members.lookup
    rw [List.find?_cons, BEq.comm]
    cases member.1 == key <;> rfl

/-- An object that holds an id, the name of a kind, a place and a change of this kind is read as the request, whatever
else it holds. -/
theorem request_eq_ok_of_members {members : Json.Members} {r : Request} (id : members.lookup "id" = some (.str r.id))
    (type : members.lookup "type" = some (.str r.change.kind.name))
    (target : members.lookup "target" = some r.target.toJson)
    (changed : members.lookup "change" = some r.change.toJson) (named : r.id ≠ "") (place : r.target.Proper)
    (proper : r.change.Proper) :
    request r.change.kind (.obj members) = .ok r ∧ anyRequest (.obj members) = .ok r := by
  obtain ⟨rid, place', change'⟩ := r
  have kind : exactly change'.kind (.str change'.kind.name) = .ok () := oneOf_ok (if_pos rfl)
  have read : requestMembers change'.kind members = .ok ⟨rid, place', change'⟩ := by
    refine Checked.seq_eq_ok_iff.mpr ⟨Request.mk rid place', change', ?_,
      field_head changed ((change_toJson_iff _).mpr proper), rfl⟩
    refine Checked.seq_eq_ok_iff.mpr ⟨Request.mk rid, place', ?_,
      field_head target ((locator_toJson_iff _).mpr place), rfl⟩
    refine Checked.seq_eq_ok_iff.mpr ⟨fun _ => Request.mk rid, (), ?_, fieldOr_head type kind, rfl⟩
    exact Checked.map_eq_ok_iff.mpr ⟨rid, field_head id (filledString_ok named), rfl⟩
  refine ⟨read, ?_⟩
  unfold anyRequest
  simp only [lookup_eq, type, Json.asString?, Option.bind_some, TransformKind.ofName?_name]
  exact Checked.under_eq_ok_iff.mpr read

/-- What was read as a request is proper, and its id is not empty. -/
theorem proper_of_request {kind : TransformKind} {input : Json} {r : Request} (read : request kind input = .ok r) :
    r.id ≠ "" ∧ r.target.Proper ∧ r.change.Proper := by
  obtain ⟨members, -, id, target, changed⟩ := request_eq_ok read
  obtain ⟨_, -, target⟩ := field_eq_ok_iff.mp target
  obtain ⟨_, -, changed⟩ := field_eq_ok_iff.mp changed
  obtain ⟨_, -, changed⟩ := model_eq_ok_iff.mp changed
  exact ⟨named_of_field id, proper_of_locator target, proper_of_changeMembers changed⟩

/-! ### What reverts a transform -/

/-- What reverts a transform is read back as it was: its change by the kind that stands beside it. -/
theorem undoData_toJson {u : UndoData} (place : u.target.Proper) (proper : u.change.Proper) :
    undoData u.toJson = .ok u := by
  obtain ⟨target, change'⟩ := u
  have kind : TransformKind.ofName? change'.kind.name = some change'.kind := TransformKind.ofName?_name _
  refine model_eq_ok_iff.mpr ⟨_, rfl, ?_⟩
  unfold undoMembers
  have type : Json.Members.lookup [("type", .str change'.kind.name), ("target", target.toJson),
      ("revertChange", change'.toJson)] "type" = some (.str change'.kind.name) := rfl
  have raw : Json.Members.lookup [("type", .str change'.kind.name), ("target", target.toJson),
      ("revertChange", change'.toJson)] "revertChange" = some (.obj (membersOf change')) :=
    congrArg some (toJson_eq_obj change')
  simp only [type, raw, Option.bind_some, Json.asString?, kind, changeMembers_toJson proper, Checked.andThen]
  exact Checked.map_eq_ok_iff.mpr ⟨target, field_head rfl ((locator_toJson_iff _).mpr place), rfl⟩

end Wire

end Retouch
