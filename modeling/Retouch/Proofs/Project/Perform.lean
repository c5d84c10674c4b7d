import Retouch.Project.Edit

/-!
# Performing actions

What performing an action comes to, one form of action after the other: what comes after it, what is
tried, what is read and what is set. All proofs about actions go through these equations and none opens
the monad. From them comes the outcome of each action that reads a file, when it succeeds: where the file
is, what it holds, and which of the kept readings is handed on.

## Main statements

* `perform_bind` and `perform_try`: the parts of an action are performed one after the other, and an error
  ends the action unless it is caught; the project is handed on in both cases.
* `perform_bind_eq_ok` and `perform_bind_eq_error`: what is known of the parts from the outcome.
* `readSource_eq_ok`: a text that was read is what the file at its place holds.
* `loadDocument_eq_ok` and `loadSheet_eq_ok`: what is handed on was kept for the very text that the file
  holds, or is read anew and kept; nothing but the cache changes.
-/
namespace Retouch.Project

variable {α β : Type} (project : Project)

/-! ### The forms of actions -/

@[simp] theorem perform_pure (a : α) : project.perform (pure a) = (.ok a, project) := rfl

@[simp] theorem perform_throw (e : ProjectError) :
    project.perform (throw e : Action α) = (.error e, project) := rfl

@[simp] theorem perform_get : project.perform (get : Action Project) = (.ok project, project) := rfl

@[simp] theorem perform_set (other : Project) :
    project.perform (set other : Action PUnit) = (.ok ⟨⟩, other) := rfl

@[simp] theorem perform_modify (change : Project → Project) :
    project.perform (modify change : Action PUnit) = (.ok ⟨⟩, change project) := rfl

@[simp] theorem perform_modifyCache (change : Cache → Cache) :
    project.perform (modifyCache change) = (.ok (), { project with cache := change project.cache }) := rfl

@[simp] theorem perform_refuse (code : ErrorCode) (message : String) (details : Option Json.Members) :
    project.perform (refuse code message details : Action α) =
      (.error (.refused ⟨code, message, details⟩), project) := rfl

/-- An action that goes on where another one ends. -/
theorem perform_bind (first : Action α) (next : α → Action β) :
    project.perform (first >>= next) =
      match project.perform first with
      | (.ok a, after) => after.perform (next a)
      | (.error e, after) => (.error e, after) := by
  change (ExceptT.bindCont next (project.perform first).1).run (project.perform first).2 = _
  cases outcome : project.perform first with
  | mk result after => cases result <;> rfl

theorem perform_bind_ok {first : Action α} {next : α → Action β} {a : α} {after : Project}
    (done : project.perform first = (.ok a, after)) :
    project.perform (first >>= next) = after.perform (next a) := by
  rw [perform_bind, done]

theorem perform_bind_error {first : Action α} {next : α → Action β} {e : ProjectError} {after : Project}
    (failed : project.perform first = (.error e, after)) :
    project.perform (first >>= next) = (.error e, after) := by
  rw [perform_bind, failed]

/-- What is done with each of some items, as long as it leaves the project alone. -/
theorem perform_mapM {each : α → Action β} {give : α → β} {items : List α}
    (done : ∀ a ∈ items, project.perform (each a) = (.ok (give a), project)) :
    project.perform (items.mapM each) = (.ok (items.map give), project) := by
  induction items with
  | nil => rfl
  | cons a rest ih =>
    rw [List.mapM_cons, perform_bind_ok project (done a List.mem_cons_self),
      perform_bind_ok project (ih fun b member => done b (List.mem_cons_of_mem a member)), perform_pure]
    rfl

/-- An action in two parts that gives something: both parts do. -/
theorem perform_bind_eq_ok {first : Action α} {next : α → Action β} {b : β} {after : Project}
    (done : project.perform (first >>= next) = (.ok b, after)) :
    ∃ a middle, project.perform first = (.ok a, middle) ∧ middle.perform (next a) = (.ok b, after) := by
  rw [perform_bind] at done
  rcases outcome : project.perform first with ⟨e | a, middle⟩
  · simp [outcome] at done
  · exact ⟨a, middle, rfl, by simpa only [outcome] using done⟩

/-- An action in two parts that fails: one of them does. -/
theorem perform_bind_eq_error {first : Action α} {next : α → Action β} {e : ProjectError} {after : Project}
    (failed : project.perform (first >>= next) = (.error e, after)) :
    project.perform first = (.error e, after) ∨
      ∃ a middle, project.perform first = (.ok a, middle) ∧
        middle.perform (next a) = (.error e, after) := by
  rw [perform_bind] at failed
  rcases outcome : project.perform first with ⟨e' | a, middle⟩
  · simp only [outcome, Prod.mk.injEq, Except.error.injEq] at failed
    exact .inl (by rw [failed.1, failed.2])
  · exact .inr ⟨a, middle, rfl, by simpa only [outcome] using failed⟩

/-- What may stop an action has not stopped it when it gives something. -/
theorem perform_guard_eq_ok {reason : Prop} [Decidable reason] {e : ProjectError} {rest : Action β} {b : β}
    {after : Project}
    (done : project.perform (if reason then (throw e : Action α) >>= fun _ => rest else rest) =
      (.ok b, after)) : ¬reason ∧ project.perform rest = (.ok b, after) := by
  split at done
  · rw [perform_bind_error project (perform_throw project e)] at done
    cases done
  · rename_i none
    exact ⟨none, done⟩

/-- What may stop an action has stopped it, or the rest of it fails. -/
theorem perform_guard_eq_error {reason : Prop} [Decidable reason] {e e' : ProjectError} {rest : Action β}
    {after : Project}
    (failed : project.perform (if reason then (throw e : Action α) >>= fun _ => rest else rest) =
      (.error e', after)) : after = project ∨ project.perform rest = (.error e', after) := by
  split at failed
  · rw [perform_bind_error project (perform_throw project e)] at failed
    cases failed
    exact .inl rfl
  · exact .inr failed

theorem perform_lift_eq_ok {ε : Type} {wrap : ε → ProjectError} {outcome : Except ε α} {a : α}
    {after : Project} (done : project.perform (lift wrap outcome) = (.ok a, after)) :
    outcome = .ok a ∧ project = after := by
  cases outcome with
  | ok found =>
    simp only [lift, perform_pure, Prod.mk.injEq, Except.ok.injEq] at done
    exact ⟨by rw [done.1], done.2⟩
  | error e => cases done

/-- An action that is tried, and what is done when it fails. -/
theorem perform_try (first : Action α) (handle : ProjectError → Action α) :
    project.perform (tryCatch first handle) =
      match project.perform first with
      | (.ok a, after) => (.ok a, after)
      | (.error e, after) => after.perform (handle e) := by
  unfold perform ExceptT.run StateT.run
  simp only [tryCatch, tryCatchThe, MonadExceptOf.tryCatch, ExceptT.tryCatch, ExceptT.mk, bind,
    StateT.bind]
  cases outcome : first project with
  | mk result after => cases result <;> rfl

/-! ### Actions that do not fail -/

/-- An action that gives something in every project. -/
def Completes (action : Action α) : Prop :=
  ∀ project : Project, ∃ a after, project.perform action = (.ok a, after)

namespace Completes

theorem pure (a : α) : Completes (Pure.pure a : Action α) := fun project => ⟨a, project, rfl⟩

theorem get : Completes (get : Action Project) := fun project => ⟨project, project, rfl⟩

theorem set (other : Project) : Completes (set other : Action PUnit) := fun _ => ⟨⟨⟩, other, rfl⟩

theorem modifyCache (change : Cache → Cache) : Completes (modifyCache change) := fun _ => ⟨(), _, rfl⟩

theorem bind {first : Action α} {next : α → Action β} (early : Completes first)
    (late : ∀ a, Completes (next a)) : Completes (first >>= next) := by
  intro project
  obtain ⟨a, middle, done⟩ := early project
  rw [perform_bind_ok project done]
  exact late a middle

end Completes

/-- Recording a transform does not fail; without a place the transform is just not recorded. -/
theorem completes_record (r : Record) : Completes (record r) := by
  unfold record
  refine .bind .get fun project => ?_
  dsimp only
  split
  · exact .pure _
  · exact .bind (.set _) fun _ => .pure _

end Retouch.Project

/-! ## What reading a file comes to -/

namespace Retouch.Project

variable {project after : Project} {file : String} {path : Files.Path} {text : List Char}

/-- The path of a file that a request names. -/
def resolve (project : Project) (file : String) : Files.Path := (project.root.join (.ofText file)).normal

/-- Every file of a project whose folder is named from the root has a place. -/
theorem absolute_resolve (absolute : project.root.absolute = true) (file : String) :
    (project.resolve file).absolute = true := by
  unfold resolve Files.Path.normal Files.Path.join
  split <;> simp_all

/-- What the file of a path holds, as a text in the encoding of the project. -/
def Holds (project : Project) (path : Files.Path) (text : List Char) : Prop :=
  ∃ bytes encoding, project.disk.read path = .ok bytes ∧
    Files.Encoding.ofName? project.settings.encoding = some encoding ∧
    encoding.decode bytes = .ok text

/-- A file holds one text. -/
theorem Holds.unique {other : List Char} (first : Holds project path text)
    (second : Holds project path other) : text = other := by
  obtain ⟨bytes, encoding, read, named, decoded⟩ := first
  obtain ⟨bytes', encoding', read', named', decoded'⟩ := second
  rw [read] at read'
  cases read'
  rw [named] at named'
  cases named'
  rw [decoded] at decoded'
  exact Except.ok.inj decoded'

theorem locate_eq_ok (done : project.perform (locate file) = (.ok path, after)) :
    path = project.resolve file ∧ project = after := by
  unfold locate at done
  rw [perform_bind_ok project (perform_get project)] at done
  dsimp only at done
  obtain ⟨-, done⟩ := perform_guard_eq_ok project done
  split at done
  · simp only [perform_pure, Prod.mk.injEq, Except.ok.injEq] at done
    exact ⟨done.1.symm, done.2⟩
  · cases done

theorem decode_eq_ok {bytes : Text.Bytes} {outcome : Except Files.Encoding.DecodeError (List Char)}
    (done : project.perform (decode bytes) = (.ok outcome, after)) :
    project = after ∧ ∃ encoding, Files.Encoding.ofName? project.settings.encoding = some encoding ∧
      encoding.decode bytes = outcome := by
  unfold decode at done
  rw [perform_bind_ok project (perform_get project)] at done
  dsimp only at done
  split at done
  · rename_i encoding named
    simp only [perform_pure, Prod.mk.injEq, Except.ok.injEq] at done
    exact ⟨done.2, encoding, named, done.1⟩
  · cases done

/-- A text that was read is what the file at its place holds. -/
theorem readSource_eq_ok (done : project.perform (readSource file) = (.ok (path, text), after)) :
    path = project.resolve file ∧ project = after ∧ Holds project path text := by
  unfold readSource at done
  obtain ⟨found, middle, located, done⟩ := perform_bind_eq_ok project done
  obtain ⟨rfl, rfl⟩ := locate_eq_ok located
  rw [perform_bind_ok project (perform_get project)] at done
  obtain ⟨isFile, next, there, done⟩ := perform_bind_eq_ok project done
  obtain ⟨-, rfl⟩ := perform_lift_eq_ok project there
  obtain ⟨-, done⟩ := perform_guard_eq_ok project done
  split at done
  · cases done
  · rename_i bytes read
    obtain ⟨outcome, last, decoded, done⟩ := perform_bind_eq_ok project done
    obtain ⟨rfl, encoding, named, rfl⟩ := decode_eq_ok decoded
    split at done
    · cases done
    · rename_i decoded
      simp only [perform_pure, Prod.mk.injEq, Except.ok.injEq] at done
      obtain ⟨⟨rfl, rfl⟩, rfl⟩ := done
      exact ⟨rfl, rfl, bytes, encoding, read, named, decoded⟩

/-- What is kept for a text was kept for this text. -/
theorem fresh?_eq_some {α : Type} {shelf : Shelf α} {parsed : α} :
    shelf.fresh? path text = some parsed ↔ Table.get? shelf path = some ⟨text, parsed⟩ := by
  unfold Shelf.fresh?
  split
  · rename_i kept found
    obtain ⟨held, read⟩ := kept
    by_cases same : held = text <;> simp [same, found]
  · rename_i missing
    simp [missing]

/-- The document that is handed on was kept for the text that the file holds, or is read anew. -/
theorem loadDocument_eq_ok {kept : Cached Markup.Document}
    (done : project.perform (loadDocument file) = (.ok (path, kept), after)) :
    ∃ language, Markup.Language.ofPath? file = some language ∧ path = project.resolve file ∧
      Holds project path kept.text ∧
      ((project.cache.documents.fresh? path kept.text = some kept.parsed ∧
          after = { project with cache := { project.cache with hits := project.cache.hits + 1 } }) ∨
        (project.cache.documents.fresh? path kept.text = none ∧
          kept.parsed = .ofChars language kept.text ∧
          after = { project with cache := { project.cache with
            documents := Table.put project.cache.documents path kept
            misses := project.cache.misses + 1 } })) := by
  unfold loadDocument at done
  split at done
  · cases done
  · rename_i language known
    obtain ⟨⟨path', text⟩, middle, read, done⟩ := perform_bind_eq_ok project done
    obtain ⟨rfl, rfl, holds⟩ := readSource_eq_ok read
    rw [perform_bind_ok project (perform_get project)] at done
    dsimp only at done
    split at done
    · rename_i found fresh
      rw [perform_bind_ok project (perform_modifyCache project _), perform_pure] at done
      cases done
      exact ⟨language, known, rfl, holds, .inl ⟨fresh, rfl⟩⟩
    · rename_i fresh
      rw [perform_bind_ok project (perform_modifyCache project _), perform_pure] at done
      cases done
      exact ⟨language, known, rfl, holds, .inr ⟨fresh, rfl, rfl⟩⟩

/-- The sheet that is handed on was kept for the text that the file holds, or is read anew. -/
theorem loadSheet_eq_ok {kept : Cached Sheet}
    (done : project.perform (loadSheet file) = (.ok (path, kept), after)) :
    path = project.resolve file ∧ Holds project path kept.text ∧
      ((project.cache.sheets.fresh? path kept.text = some kept.parsed ∧
          after = { project with cache := { project.cache with hits := project.cache.hits + 1 } }) ∨
        (project.cache.sheets.fresh? path kept.text = none ∧ kept.parsed = .ofChars kept.text ∧
          after = { project with cache := { project.cache with
            sheets := Table.put project.cache.sheets path kept
            misses := project.cache.misses + 1 } })) := by
  unfold loadSheet at done
  obtain ⟨-, done⟩ := perform_guard_eq_ok project done
  obtain ⟨-, done⟩ := perform_guard_eq_ok project done
  obtain ⟨⟨path', text⟩, middle, read, done⟩ := perform_bind_eq_ok project done
  obtain ⟨rfl, rfl, holds⟩ := readSource_eq_ok read
  rw [perform_bind_ok project (perform_get project)] at done
  dsimp only at done
  split at done
  · rename_i found fresh
    rw [perform_bind_ok project (perform_modifyCache project _), perform_pure] at done
    cases done
    exact ⟨rfl, holds, .inl ⟨fresh, rfl⟩⟩
  · rename_i fresh
    rw [perform_bind_ok project (perform_modifyCache project _), perform_pure] at done
    cases done
    exact ⟨rfl, holds, .inr ⟨fresh, rfl, rfl⟩⟩

/-! ### The text before a write -/

theorem readCurrent_eq_ok {bytes : Text.Bytes}
    (done : project.perform (readCurrent path) = (.ok (bytes, text), after)) :
    project = after ∧ Holds project path text := by
  unfold readCurrent at done
  obtain ⟨-, done⟩ := perform_guard_eq_ok project done
  rw [perform_bind_ok project (perform_get project)] at done
  split at done
  · cases done
  · rename_i bytes' read
    obtain ⟨outcome, last, decoded, done⟩ := perform_bind_eq_ok project done
    obtain ⟨rfl, encoding, named, rfl⟩ := decode_eq_ok decoded
    split at done
    · cases done
    · rename_i text' decoded
      cases done
      exact ⟨rfl, bytes, encoding, read, named, decoded⟩

/-- A file is only written while it holds the text that is expected. -/
theorem prepareWrite_eq_ok {expected : Option (List Char)} {copied : Bool}
    (done : project.perform (prepareWrite path expected) = (.ok (text, copied), after)) :
    Holds project path text ∧ ∀ known, expected = some known → text = known := by
  unfold prepareWrite at done
  obtain ⟨⟨bytes, current⟩, middle, read, done⟩ := perform_bind_eq_ok project done
  obtain ⟨rfl, holds⟩ := readCurrent_eq_ok read
  have copying {known : Prop} (same : known) (copied' : project.perform (get >>= fun project : Project =>
      if project.settings.backups then backUp path bytes >>= fun copied => pure (current, copied)
      else pure false >>= fun copied => pure (current, copied)) = (.ok (text, copied), after)) :
      text = current ∧ known := by
    rw [perform_bind_ok project (perform_get project)] at copied'
    split at copied'
    · obtain ⟨_, _, -, copied'⟩ := perform_bind_eq_ok project copied'
      cases copied'
      exact ⟨rfl, same⟩
    · obtain ⟨_, _, -, copied'⟩ := perform_bind_eq_ok project copied'
      cases copied'
      exact ⟨rfl, same⟩
  dsimp only at done
  split at done
  · rename_i known
    obtain ⟨same, done⟩ := perform_guard_eq_ok project done
    obtain ⟨rfl, same⟩ := copying (Classical.not_not.mp same) done
    exact ⟨holds, fun other eq => same.trans (Option.some.inj eq)⟩
  · obtain ⟨rfl, -⟩ := copying trivial done
    exact ⟨holds, fun _ eq => nomatch eq⟩

/-- What is written is the new text with the line breaks of the text that the file held. -/
theorem write_eq_ok {content written known : List Char} {copied : Bool}
    (done : project.perform (write path content (some known)) = (.ok (written, copied), after)) :
    Holds project path known ∧ written = (Text.LineBreak.ofText known).apply content := by
  unfold write at done
  obtain ⟨⟨current, copied'⟩, middle, prepared, replaced⟩ := perform_bind_eq_ok project done
  obtain ⟨holds, same⟩ := prepareWrite_eq_ok prepared
  obtain ⟨_, _, -, answered⟩ := perform_bind_eq_ok middle replaced
  cases answered
  rw [← same known rfl]
  exact ⟨holds, rfl⟩

end Retouch.Project
