import Retouch.Proofs.Files.Encoding
import Retouch.Proofs.Project.Reverting
import Retouch.Proofs.Sheet.Independent

/-!
# Two updates of a sheet

Two requests that change the values of different declarations of a sheet are made one after the other. The second one
finds the sheet as the first one has left it, kept under the text that was written.

## Main statements

* `Update.leaves_iff`: when both are answered in an order, and the bytes that the file has then.
* `Update.commute_iff`: when both orders are answered and leave the same bytes.
-/
namespace Retouch.Project

open Text (LineBreak)

variable {project after : Project} {path : Files.Path} {file : String} {kept kept' : Cached Sheet} {sheet : Sheet}
  {selector : String} {request : Request} {result : TransformResult} {previous : Option Style.Value} {edit : SheetEdit}
  {text : List Char}

/-! ### Edits one after the other -/

/-- A name of a file leads to a sheet that is read, or kept from the last edit, and lies outside the folder of the
program. -/
structure Loads (project : Project) (file : String) (path : Files.Path) (kept : Cached Sheet) : Prop where
  load : ∃ cache, project.perform (loadSheet file) = (.ok (path, kept), { project with cache })
  outside : Outside project (project.disk.aim path)

theorem Opens.loads (opens : Opens project file path sheet) : Loads project file path ⟨sheet.source, sheet⟩ := by
  obtain ⟨cache, result, opened, -, opened', load⟩ := loadSheet_faithful opens.faithful file
  rw [opens.opened] at opened'
  cases opened'
  exact ⟨⟨cache, load⟩, opens.outside⟩

namespace Loads

theorem holds (loads : Loads project file path kept) : path = project.resolve file ∧ Holds project path kept.text := by
  obtain ⟨cache, load⟩ := loads.load
  obtain ⟨same, holds, -⟩ := loadSheet_eq_ok load
  exact ⟨same, holds⟩

theorem clean (loads : Loads project file path kept) : Files.Path.back ∉ path.names := by
  obtain ⟨rfl, -⟩ := loads.holds
  exact Files.Path.not_mem_normal _

/-- What an edit has kept is loaded next. -/
theorem after_edit (loads : Loads project file path kept) (beside : Beside [] project after)
    (holds : Holds after path text) (found : Table.get? after.cache.sheets path = some ⟨text, sheet⟩) :
    Loads after file path ⟨text, sheet⟩ := by
  obtain ⟨cache, load⟩ := loads.load
  refine ⟨⟨{ after.cache with hits := after.cache.hits + 1 }, ?_⟩, ?_⟩
  · unfold loadSheet at load ⊢
    obtain ⟨named, load⟩ := perform_guard_eq_ok project load
    obtain ⟨styled, load⟩ := perform_guard_eq_ok project load
    obtain ⟨⟨path', text'⟩, middle, read, load⟩ := perform_bind_eq_ok project load
    obtain ⟨same, rfl, -⟩ := readSource_eq_ok read
    obtain rfl : path = path' := loads.holds.1.trans same.symm
    rw [if_neg named, if_neg styled, perform_bind_ok _ (readSource_run read beside.root holds),
      perform_bind_ok _ (perform_get _)]
    dsimp only
    rw [fresh?_eq_some.mpr found]
    dsimp only
    rw [perform_bind_ok _ (perform_modifyCache _ _)]
    rfl
  · have aim : after.disk.aim path = project.disk.aim path := by
      rw [Files.Disk.aim, beside.spares.home]
      rfl
    unfold Outside
    rw [aim, beside.root]
    exact loads.outside

/-- A change of styles that is answered was made in the sheet that was loaded, and the sheet that it left is loaded
next, under whichever name. -/
theorem applied (loads : Loads project request.target.styleFile path kept)
    (styled : request.change.sheetEdit? = some edit) (applied : project.perform (apply request) = (.ok result, after)) :
    ∃ selector sheet previous, request.target.selectors.getLast? = some selector ∧
      edit kept.parsed selector = ⟨sheet, .ok previous⟩ ∧ (sheet.hasError = true → kept.parsed.hasError = true) ∧
      Usable path ∧ Beside [] project after ∧ Stores after path ((LineBreak.ofText kept.text).apply sheet.source) ∧
      ∀ {file kept'}, Loads project file path kept' →
        Loads after file path ⟨(LineBreak.ofText kept.text).apply sheet.source, sheet⟩ := by
  obtain ⟨edited, made, rfl⟩ := apply_eq_ok_iff.mp applied
  rw [edit_eq_editSheet styled] at made
  obtain ⟨cache, load⟩ := loads.load
  obtain ⟨selector, sheet, previous, written, copied, middle, chosen, done, sound, wrote⟩ :=
    editSheet_eq_ok_of_load load made
  -- The same edit again, for what it leaves.
  obtain ⟨edited', last, made', same, lastCache, beside⟩ :=
    editSheet_of_load request.change.kind request.id chosen load done sound wrote
  rw [made] at made'
  cases made'
  obtain ⟨stores, roomy, begun⟩ := write_eq_ok_stores loads.clean wrote
  obtain ⟨-, rfl⟩ := write_eq_ok wrote
  have outside : Outside middle (middle.disk.aim path) := by
    have aim : middle.disk.aim path = project.disk.aim path := by
      rw [Files.Disk.aim, begun.spares.home]
      rfl
    unfold Outside
    rw [aim, begun.root]
    exact loads.outside
  have stores := stores.beside loads.clean (beside _ outside)
  have root := begun.trans (beside [] (outside_root middle))
  exact ⟨selector, sheet, previous, chosen, done, sound, ⟨plain_of_write wrote, roomy⟩, root, stores, fun other =>
    other.after_edit root stores.holds (by rw [lastCache]; simp [keepSheet, Table.get?_put])⟩

/-- A change that is made in the sheet that was loaded is answered, if the file can be written. -/
theorem applies (loads : Loads project request.target.styleFile path kept)
    (styled : request.change.sheetEdit? = some edit) (chosen : request.target.selectors.getLast? = some selector)
    (done : edit kept.parsed selector = ⟨sheet, .ok previous⟩)
    (sound : sheet.hasError = true → kept.parsed.hasError = true) (usable : Usable path)
    (encodable : Encodable project ((LineBreak.ofText kept.text).apply sheet.source)) :
    ∃ result after, project.perform (apply request) = (.ok result, after) := by
  obtain ⟨copied, middle, wrote⟩ :=
    write_runs loads.clean usable.plain usable.roomy loads.outside loads.holds.2 encodable
  obtain ⟨cache, load⟩ := loads.load
  obtain ⟨edited, last, made, -⟩ := editSheet_of_load request.change.kind request.id chosen load done sound wrote
  exact ⟨_, last, apply_eq_ok_iff.mpr ⟨edited, (edit_eq_editSheet styled) ▸ made, rfl⟩⟩

end Loads

/-! ### Two updates -/

/-- An update of a declaration that is answered in a project, with the sheet that it is made in and what it finds there.
Its value is written as a plain text without carriage returns. -/
structure Update (project : Project) (path : Files.Path) (sheet : Sheet) where
  request : Request
  property : String
  prior : Style.Value
  new : Style.Value
  text : String
  selector : String
  rule : Sheet.Rule
  index : Nat
  /-- The declaration that is found. -/
  p : Sheet.Placed
  result : TransformResult
  after : Project
  change : request.change = .cssUpdate property prior new
  written : new.text = .ok text
  plain : Sheet.Plain property text
  single : '\r' ∉ text.toList
  chosen : request.target.selectors.getLast? = some selector
  found : sheet.resolve selector none = .ok (rule, index)
  declared : rule.declaration? property = some p
  opens : Opens project request.target.styleFile path sheet
  applied : project.perform (apply request) = (.ok result, after)

namespace Update

/-- The sheet with the new value. -/
def changed (u : Update project path sheet) : Sheet := sheet.replaceValue u.p u.text

/-- The sheet with the new values of two updates. -/
def both (u v : Update project path sheet) : Sheet := sheet.replaceBoth u.p u.text v.p v.text

/-- The updates name different declarations: their rules are different, or their properties up to case. -/
def Apart (u v : Update project path sheet) : Prop :=
  u.index ≠ v.index ∨ Sheet.sameProperty u.property.toList v.property.toList = false

/-- The sheet with the new value is read as it was, but for this value: the declarations behind it are moved only. -/
def Recast (u : Update project path sheet) : Prop :=
  Sheet.Recast u.p (u.p.stopWith u.text) u.index sheet.rules u.changed.rules

/-- The text that the file gets when one update is made after the other. -/
def final (u v : Update project path sheet) : List Char :=
  (LineBreak.ofText ((LineBreak.ofText sheet.source).apply u.changed.source)).apply (u.both v).source

/-- The one update, and then the other. -/
def inTurn (u v : Update project path sheet) : Action (TransformResult × TransformResult) := do
  let first ← apply u.request
  let second ← apply v.request
  return (first, second)

/-- Both updates are answered, first the one and then the other, and the file has these bytes then. -/
def Leaves (u v : Update project path sheet) (bytes : Text.Bytes) : Prop :=
  ∃ answers after, project.perform (u.inTurn v) = (.ok answers, after) ∧ after.disk.read path = .ok bytes

/-- The line breaks of the sheet are pairs, one of the updates alone takes the last of them away, and the sheet with both
values has line breaks again. -/
def Unsteady (u v : Update project path sheet) : Prop :=
  LineBreak.ofText sheet.source = .pair ∧ ¬('\n' ∈ u.changed.source ↔ '\n' ∈ v.changed.source) ∧
    '\n' ∈ (u.both v).source

variable {u v : Update project path sheet}

theorem styled (u : Update project path sheet) :
    u.request.change.sheetEdit? = some (updating u.property u.prior u.new) := by
  rw [u.change]
  rfl

theorem Apart.symm (apart : u.Apart v) : v.Apart u := by
  refine apart.imp Ne.symm fun other => ?_
  rw [← other]
  exact BEq.comm

/-- What the update came to on its own. -/
theorem updates (u : Update project path sheet) :
    sheet.Updates u.selector u.property u.prior u.new u.rule u.index u.p u.text ∧
      (u.changed.hasError = true → sheet.hasError = true) ∧ Usable path ∧ Beside [] project u.after ∧
      Stores u.after path ((LineBreak.ofText sheet.source).apply u.changed.source) ∧
      ∀ {file kept'}, Loads project file path kept' →
        Loads u.after file path ⟨(LineBreak.ofText sheet.source).apply u.changed.source, u.changed⟩ := by
  obtain ⟨selector, changed, previous, chosen, done, sound, usable, beside, stores, loads⟩ :=
    u.opens.loads.applied u.styled u.applied
  obtain rfl := Option.some.inj (u.chosen.symm.trans chosen)
  obtain ⟨rule, index, p, text, updates, rfl, -, -⟩ := Sheet.updating_eq_ok_iff.mp done
  have found := updates.found
  rw [u.found] at found
  cases found
  have declared := updates.declared
  rw [u.declared] at declared
  cases declared
  have written := updates.written
  rw [u.written] at written
  cases written
  exact ⟨updates, sound, usable, beside, stores, loads⟩

theorem within (u : Update project path sheet) (sound : sheet.hasError = false) : u.p.Within sheet.source :=
  Sheet.within_of_sound sound (List.mem_of_getElem? (Sheet.resolve_eq_ok u.found))
    (Sheet.declaration?_member u.declared)

theorem changed_sound (u : Update project path sheet) (sound : sheet.hasError = false) : u.changed.hasError = false := by
  cases error : u.changed.hasError with
  | false => rfl
  | true => exact (u.updates.2.1 error).symm.trans sound

section Pair

variable (sound : sheet.hasError = false) (apart : u.Apart v) (recast : u.Recast)

include sound apart recast

/-- After the one update the other one is of a declaration as before, and leaves both values in the sheet. -/
theorem next : ∃ rule q, u.changed.Updates v.selector v.property v.prior v.new rule v.index q v.text ∧
    q.Within u.changed.source ∧ u.changed.replaceValue q v.text = u.both v ∧ u.p.start ≠ v.p.start := by
  have named : Sheet.sameProperty u.p.property u.property.toList = true :=
    (List.find?_eq_some_iff_append.mp u.declared).1
  have other : v.index ≠ u.index ∨ Sheet.sameProperty u.p.property v.property.toList = false := by
    refine apart.imp Ne.symm fun other => ?_
    simp only [Sheet.sameProperty, beq_iff_eq, beq_eq_false_iff_ne] at named other ⊢
    rwa [named]
  obtain ⟨rule, q, updates, aside⟩ := v.updates.1.recast recast other
  have within := Sheet.within_of_sound (u.changed_sound sound)
    (List.mem_of_getElem? (Sheet.resolve_eq_ok updates.found)) (Sheet.declaration?_member updates.declared)
  exact ⟨rule, q, updates, within, Sheet.replaceBoth_of_aside aside (u.within sound) (v.within sound) v.text,
    aside.starts_apart (u.within sound) (v.within sound)⟩

theorem both_comm : v.both u = u.both v := by
  obtain ⟨-, -, -, -, -, other⟩ := next sound apart recast
  exact Sheet.replaceBoth_comm other.symm _ _

/-- Two updates are answered in an order just if the sheet with both values has no error, and still has the rule of the
second one; the file has the bytes of this sheet then, with the line breaks that the first update has left. -/
theorem leaves_iff {bytes : Text.Bytes} : u.Leaves v bytes ↔
    (u.both v).hasError = false ∧ v.index < (u.both v).rules.length ∧
      ∃ encoding, Files.Encoding.ofName? project.settings.encoding = some encoding ∧
        encoding.encode (u.final v) = .ok bytes := by
  obtain ⟨rule, q, updates, -, both, -⟩ := next sound apart recast
  obtain ⟨-, -, usable, beside, -, loads⟩ := u.updates
  have loads := loads v.opens.loads
  have clear := u.changed_sound sound
  constructor
  · -- The first update is answered as on its own, and the second one is made in the sheet that this has kept.
    rintro ⟨answers, after, done, read⟩
    obtain ⟨first, middle, early, done⟩ := perform_bind_eq_ok _ done
    rw [u.applied] at early
    cases early
    obtain ⟨second, last, late, done⟩ := perform_bind_eq_ok _ done
    cases done
    obtain ⟨selector, changed, previous, chosen, edited, guard, -, beside', stores, -⟩ := loads.applied v.styled late
    obtain rfl := Option.some.inj (v.chosen.symm.trans chosen)
    obtain ⟨rule', index, q', text, updates', rfl, there, -⟩ := Sheet.updating_eq_ok_iff.mp edited
    obtain ⟨rfl, rfl, rfl, rfl⟩ := updates.unique updates'
    rw [both] at guard there stores
    obtain ⟨bytes', encoding, read', named, encoded⟩ := stores
    rw [read] at read'
    cases read'
    rw [beside'.settings, beside.settings] at named
    refine ⟨?_, there, encoding, named, encoded⟩
    cases error : (u.both v).hasError with
    | false => rfl
    | true => exact (guard error).symm.trans clear
  · rintro ⟨error, there, encoding, named, encoded⟩
    have edited := Sheet.updating_eq_ok_iff.mpr ⟨rule, v.index, q, v.text, updates, both, there, rfl⟩
    have guard : (u.both v).hasError = true → u.changed.hasError = true := fun other =>
      absurd (error.symm.trans other) (by decide)
    obtain ⟨result, after, late⟩ := loads.applies v.styled v.chosen edited guard usable
      ⟨encoding, bytes, beside.settings ▸ named, encoded⟩
    obtain ⟨_, _, _, chosen, edited', -, -, beside', stores, -⟩ := loads.applied v.styled late
    obtain rfl := Option.some.inj (v.chosen.symm.trans chosen)
    rw [edited] at edited'
    cases edited'
    obtain ⟨bytes', encoding', read, named', encoded'⟩ := stores
    rw [beside'.settings, beside.settings, named] at named'
    cases named'
    obtain rfl : bytes = bytes' := Except.ok.inj (encoded.symm.trans encoded')
    refine ⟨(u.result, result), after, ?_, read⟩
    unfold inTurn
    rw [perform_bind_ok _ u.applied, perform_bind_ok _ late]
    rfl

/-- The text with both values has bytes, for the texts with one of them were written. -/
theorem encodable : ∃ encoding bytes, Files.Encoding.ofName? project.settings.encoding = some encoding ∧
    encoding.encode (u.final v) = .ok bytes := by
  obtain ⟨rule, q, -, within, both, -⟩ := next sound apart recast
  obtain ⟨-, -, -, beside, ⟨bytes, encoding, -, named, encoded⟩, -⟩ := u.updates
  obtain ⟨-, -, -, beside', ⟨bytes', encoding', -, named', encoded'⟩, -⟩ := v.updates
  rw [beside.settings] at named
  rw [beside'.settings, named] at named'
  cases named'
  have small {c : Char} (ascii : c = '\r' ∨ c = ' ') : c.toNat < encoding.limit := by
    rcases ascii with rfl | rfl <;> cases encoding <;> decide
  -- A character of an edited text is one of the text that was written for it, or a carriage return.
  have covers {cs : List Char} {bytes : Text.Bytes}
      (encoded : encoding.encode ((LineBreak.ofText sheet.source).apply cs) = .ok bytes) (c : Char) (member : c ∈ cs) : c.toNat < encoding.limit := by
    by_cases carriage : c = '\r'
    · exact small (.inl carriage)
    · exact (Files.Encoding.encode_eq_ok_iff.mp encoded).1 c (LineBreak.mem_apply_of_mem carriage member)
  refine ⟨encoding, _, named, Files.Encoding.encode_eq_ok_iff.mpr ⟨fun c member => ?_, rfl⟩⟩
  -- A character of the final text is one of the sheet, one of a value, a blank, or a part of a line break.
  rcases LineBreak.mem_apply member with inside | carriage
  · rw [← both] at inside
    rcases Sheet.mem_replaceValue within inside with one | two | blank
    · exact covers encoded c one
    · exact covers encoded' c (Sheet.mem_replaceValue_of_mem sheet v.p two)
    · exact small (.inr blank)
  · exact small (.inl carriage)

/-- The file gets the same text in both orders, unless the line breaks are unsteady. -/
theorem final_comm_iff : u.final v = v.final u ↔ ¬u.Unsteady v := by
  unfold final
  rw [both_comm sound apart recast]
  exact LineBreak.steady_iff fun feeds =>
    ⟨Sheet.pure_replaceValue (u.within sound) u.plain u.single (LineBreak.pure_of_ofText feeds),
      Sheet.pure_replaceValue (v.within sound) v.plain v.single (LineBreak.pure_of_ofText feeds)⟩

end Pair

/-- An update whose value can take the place of the old one, behind a text that is read as before, is read so. -/
theorem recast_of_settable (u : Update project path sheet) (sound : sheet.hasError = false)
    (settable : sheet.Settable u.rule u.index u.property u.text) : u.Recast :=
  (Sheet.recast_of_settable sound (Sheet.resolve_eq_ok u.found) u.plain u.declared settable).2

/-- Two updates of different declarations of a sheet without errors, each of which is read as a change of its value
alone, are answered in both orders and leave the same bytes, just if the sheet with both values has no error and still
has both rules, and the line breaks are not unsteady. -/
theorem commute_iff (u v : Update project path sheet) (sound : sheet.hasError = false) (apart : u.Apart v)
    (recast : u.Recast) (recast' : v.Recast) : (∃ bytes, u.Leaves v bytes ∧ v.Leaves u bytes) ↔
      (u.both v).hasError = false ∧ u.index < (u.both v).rules.length ∧ v.index < (u.both v).rules.length ∧
        ¬u.Unsteady v := by
  have comm := both_comm sound apart recast
  have steady := final_comm_iff sound apart recast
  constructor
  · rintro ⟨bytes, one, two⟩
    obtain ⟨error, there, encoding, named, encoded⟩ := (leaves_iff sound apart recast).mp one
    obtain ⟨-, there', encoding', named', encoded'⟩ := (leaves_iff sound apart.symm recast').mp two
    rw [comm] at there'
    obtain rfl := Option.some.inj (named.symm.trans named')
    -- The same bytes are read as one text.
    have read := Files.Encoding.decode_encode encoded
    rw [Files.Encoding.decode_encode encoded'] at read
    exact ⟨error, there', there, steady.mp (Except.ok.inj read).symm⟩
  · rintro ⟨error, there, there', unmixed⟩
    obtain ⟨encoding, bytes, named, encoded⟩ := encodable sound apart recast
    refine ⟨bytes, (leaves_iff sound apart recast).mpr ⟨error, there', encoding, named, encoded⟩,
      (leaves_iff sound apart.symm recast').mpr ?_⟩
    rw [comm, ← steady.mpr unmixed]
    exact ⟨error, there, encoding, named, encoded⟩

/-! ### A rule with two declarations -/

/-- An update of a declaration in the only sheet of a project. -/
private def ofSheet {text property written : String} {prior new : Style.Value} {rule : Sheet.Rule} {index : Nat}
    {p : Sheet.Placed} (read : ((sheetProject text).perform (readSource "a.css")).1.toOption =
      some (.ofText "/page/a.css", text.toList)) (writes : new.text = .ok written) (plain : Sheet.Plain property written)
    (single : '\r' ∉ written.toList) (found : ((Sheet.ofText text).resolve ".a" none).toOption = some (rule, index))
    (declared : rule.declaration? property = some p)
    (answered : ((sheetProject text).perform
      (apply (styleRequest (.cssUpdate property prior new)))).1.toOption.isSome = true) :
    Update (sheetProject text) (.ofText "/page/a.css") (.ofText text) where
  request := styleRequest (.cssUpdate property prior new)
  property := property
  prior := prior
  new := new
  text := written
  selector := ".a"
  rule := rule
  index := index
  p := p
  result := ((sheetProject text).perform (apply (styleRequest (.cssUpdate property prior new)))).1.toOption.get answered
  after := ((sheetProject text).perform (apply (styleRequest (.cssUpdate property prior new)))).2
  change := rfl
  written := writes
  plain := plain
  single := single
  chosen := rfl
  found := eq_ok_of_toOption found
  declared := declared
  opens := opens_sheetProject text read
  applied := Prod.ext (eq_ok_of_toOption (Option.some_get answered).symm) rfl

private def flow (float clear : String) : Sheet :=
  .ofText (".a \x7b float: " ++ float ++ "; clear: " ++ clear ++ "; \x7d")

private def floatPlaced (float : String) : Sheet.Placed where
  property := "float".toList
  value := ' ' :: float.toList
  important := false
  ended := true
  start := 5
  stop := 13 + float.length
  valueStart := 11
  valueStop := 12 + float.length

private def clearPlaced (float clear : String) : Sheet.Placed where
  property := "clear".toList
  value := ' ' :: clear.toList
  important := false
  ended := true
  start := 14 + float.length
  stop := 22 + float.length + clear.length
  valueStart := 20 + float.length
  valueStop := 21 + float.length + clear.length

private def flowRule (float clear : String) : Sheet.Rule where
  start := 0
  selector := ".a".toList
  opening := 3
  innerStart := 4
  closing := 23 + float.length + clear.length
  declarations := [floatPlaced float, clearPlaced float clear]
  container := none

private def floatText : String := ".a \x7b float: left; clear: both; \x7d"

private theorem read_float : ((sheetProject floatText).perform (readSource "a.css")).1.toOption =
    some (.ofText "/page/a.css", floatText.toList) := by decide +kernel

private theorem plain_of_told {property value : String} (sound : (Sheet.only [';'] property value).hasError = false)
    (told : (Sheet.only [';'] property value).rules.map (fun rule => rule.outline.entries) =
      [[⟨property.toList, value.toList, false⟩]]) : Sheet.Plain property value :=
  ⟨sound, List.map_eq_singleton_iff.mp told⟩

private def floatUpdate : Update (sheetProject floatText) (.ofText "/page/a.css") (.ofText floatText) :=
  @ofSheet floatText "float" "right" (.keyword "left") (.keyword "right") (flowRule "left" "both") 0
    (floatPlaced "left") read_float rfl (plain_of_told (by decide +kernel) (by decide +kernel)) (by decide)
    (by decide +kernel) (by decide +kernel) (by decide +kernel)

private def clearUpdate : Update (sheetProject floatText) (.ofText "/page/a.css") (.ofText floatText) :=
  @ofSheet floatText "clear" "none" (.keyword "both") (.keyword "none") (flowRule "left" "both") 0
    (clearPlaced "left" "both") read_float rfl (plain_of_told (by decide +kernel) (by decide +kernel)) (by decide)
    (by decide +kernel) (by decide +kernel) (by decide +kernel)

/-- The one keyword is updated behind the other one and in front of it, with the same result. -/
theorem commute_iff_float : ∃ u v : Update (sheetProject floatText) (.ofText "/page/a.css") (.ofText floatText),
    (Sheet.ofText floatText).hasError = false ∧ u.Apart v ∧ u.Recast ∧ v.Recast ∧
      ∃ bytes, u.Leaves v bytes ∧ v.Leaves u bytes := by
  have sound : (Sheet.ofText floatText).hasError = false := by decide +kernel
  have apart : floatUpdate.Apart clearUpdate := .inr (by decide)
  have rules : (Sheet.ofText floatText).rules = [flowRule "left" "both"] := by decide +kernel
  have one : floatUpdate.changed = flow "right" "both" := congrArg Sheet.ofChars (by decide +kernel)
  have other : clearUpdate.changed = flow "left" "none" := congrArg Sheet.ofChars (by decide +kernel)
  have both : floatUpdate.both clearUpdate = flow "right" "none" := congrArg Sheet.ofChars (by decide +kernel)
  have recast : floatUpdate.Recast := by
    have changed : (flow "right" "both").rules = [flowRule "right" "both"] := by decide +kernel
    unfold Update.Recast
    rw [rules, one, changed]
    exact .here ⟨rfl, [], [], floatPlaced "right", [_], [_], rfl, rfl, rfl, .nil, .cons (.behind (by decide)) .nil⟩ .nil
  have recast' : clearUpdate.Recast := by
    have changed : (flow "left" "none").rules = [flowRule "left" "none"] := by decide +kernel
    unfold Update.Recast
    rw [rules, other, changed]
    exact .here ⟨rfl, [_], [_], clearPlaced "left" "none", [], [], rfl, rfl, rfl, .cons (.front (by decide)) .nil,
      .nil⟩ .nil
  have steady : ¬floatUpdate.Unsteady clearUpdate := fun unsteady => absurd unsteady.1 (by decide +kernel)
  refine ⟨floatUpdate, clearUpdate, sound, apart, recast, recast',
    (commute_iff floatUpdate clearUpdate sound apart recast recast').mpr ?_⟩
  rw [both]
  exact ⟨by decide +kernel, by decide +kernel, by decide +kernel, steady⟩

/-! ### A sheet with one line break -/

private theorem leaves_iff_eq {project : Project} {path : Files.Path} {sheet : Sheet} {u v : Update project path sheet}
    {written : Text.Bytes} (answered : (project.perform (u.inTurn v)).1.toOption.isSome = true)
    (read : ((project.perform (u.inTurn v)).2.disk.read path).toOption = some written) (bytes : Text.Bytes) :
    u.Leaves v bytes ↔ bytes = written := by
  have left := eq_ok_of_toOption read
  constructor
  · rintro ⟨answers, after, done, read'⟩
    rw [done, read'] at left
    exact Except.ok.inj left
  · rintro rfl
    exact ⟨_, _, Prod.ext (eq_ok_of_toOption (Option.some_get answered).symm) rfl, left⟩

private def pairsText : String := ".a \x7b font: a\r\nb; float: left; \x7d"

private def pairsRule : Sheet.Rule where
  start := 0
  selector := ".a".toList
  opening := 3
  innerStart := 4
  closing := 30
  declarations := [⟨"font".toList, " a\r\nb".toList, false, true, 5, 16, 10, 15⟩,
    ⟨"float".toList, " left".toList, false, true, 17, 29, 23, 28⟩]
  container := none

private theorem read_pairs : ((sheetProject pairsText).perform (readSource "a.css")).1.toOption =
    some (.ofText "/page/a.css", pairsText.toList) := by decide +kernel

/-- The update that takes the only line break away. -/
private def joiningUpdate : Update (sheetProject pairsText) (.ofText "/page/a.css") (.ofText pairsText) :=
  @ofSheet pairsText "font" "c" (.tuple [.keyword "a", .keyword "b"]) (.keyword "c") pairsRule 0
    (pairsRule.declarations.get ⟨0, by decide⟩) read_pairs rfl (plain_of_told (by decide +kernel) (by decide +kernel))
    (by decide) (by decide +kernel) (by decide +kernel) (by decide +kernel)

/-- The update that brings a line break. -/
private def breakingUpdate : Update (sheetProject pairsText) (.ofText "/page/a.css") (.ofText pairsText) :=
  @ofSheet pairsText "float" "left\nright" (.keyword "left") (.unparsed "left\nright") pairsRule 0
    (pairsRule.declarations.get ⟨1, by decide⟩) read_pairs rfl (plain_of_told (by decide +kernel) (by decide +kernel))
    (by decide) (by decide +kernel) (by decide +kernel) (by decide +kernel)

/-- A value with a line break is written with a pair, unless the other update has taken the only pair of the sheet away
before. -/
theorem not_commute_of_pairs : ∃ u v : Update (sheetProject pairsText) (.ofText "/page/a.css") (.ofText pairsText),
    (Sheet.ofText pairsText).hasError = false ∧ u.Apart v ∧ (∃ bytes, u.Leaves v bytes) ∧ (∃ bytes, v.Leaves u bytes) ∧
      ¬∃ bytes, u.Leaves v bytes ∧ v.Leaves u bytes := by
  have first (bytes : Text.Bytes) : joiningUpdate.Leaves breakingUpdate bytes ↔
      bytes = Text.Utf8.encode ".a \x7b font: c; float: left\nright; \x7d".toList :=
    leaves_iff_eq (by decide +kernel) (by decide +kernel) bytes
  have second (bytes : Text.Bytes) : breakingUpdate.Leaves joiningUpdate bytes ↔
      bytes = Text.Utf8.encode ".a \x7b font: c; float: left\r\nright; \x7d".toList :=
    leaves_iff_eq (by decide +kernel) (by decide +kernel) bytes
  refine ⟨joiningUpdate, breakingUpdate, by decide +kernel, .inr (by decide), ⟨_, (first _).mpr rfl⟩,
    ⟨_, (second _).mpr rfl⟩, fun both => ?_⟩
  obtain ⟨bytes, one, other⟩ := both
  rw [first] at one
  rw [second, one] at other
  exact absurd other (by decide)

end Update

end Retouch.Project
