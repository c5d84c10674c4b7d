import Retouch.Proofs.Client.Editing
import Retouch.Proofs.Client.Link

/-!
# What a step does to the edits that wait

An edit that was sent waits on the list for its answer. A step should mark it only by a verdict with its own id and
only while it is pending, take it off the list only when it is removed or its timer finds it committed, and leave
all other edits where they are. But the list goes by ids alone: a verdict marks whatever edit has its id, marked or
not, a timer takes off whatever edit has its id by then, and an edit with an id that is on the list replaces the
one that has it.

## Main statements

* `Happening.keeps_iff`: a step does what it should just if it does not contradict what happened before.
-/
namespace Retouch.Client

/-- An edit of which a verdict was given. -/
def Edit.marked (edit : Edit) : Verdict → Edit
  | .committed => { edit with outcome := .committed }
  | .failed error => { edit with outcome := .failed, error }

/-- The timer of a number, if it is set. -/
def timer? (client : Client) (number : Nat) : Option Timer :=
  client.timers.find? fun timer => timer.number = number

/-- The edit that a timer takes off the list. -/
def pruned? (client : Client) (number : Nat) : Option String :=
  match (client.timer? number).map Timer.task with
  | some (.prune id) => some id
  | _ => none

/-- What can happen to the list of edits. -/
inductive Happening where
  | added (id type : String) (target : SourceLocator) (timestamp : Float)
  /-- A frame of the server comes in. -/
  | frame (text : String)
  /-- The timer of a number fires, if it is set. -/
  | fired (number : Nat)
  | removed (id : String)

namespace Happening

def action : Happening → Action Unit
  | added id type target timestamp => putEdit id { type, target, timestamp }
  | frame text => discard (takeFrame text)
  | fired number => do
    if let some timer := (← get).timer? number then fire timer
  | removed id => removeEdit id

def after (happening : Happening) (client : Client) : Client := Client.after client happening.action

/-- The edit that is put on the list. -/
def adds? : Happening → Option String
  | added id _ _ _ => some id
  | _ => none

/-- What a frame says of which edit. -/
def verdict? : Happening → Option (String × Verdict)
  | frame text => (readFrame text).toOption.join
  | _ => none

/-- The number of timers that were set when each edit was put on the list. -/
def births (happening : Happening) (client : Client) (born : String → Nat) : String → Nat := fun id =>
  if happening.adds? = some id then client.timersSet else born id

/-! ### What is required of a step -/

/-- What one step may do to the edits. -/
structure Keeps (born : String → Nat) (client : Client) (happening : Happening) : Prop where
  /-- An edit changes only while it is pending, by a verdict with its own id. -/
  marked : ∀ id edit edit', client.edits.get? id = some edit →
    (happening.after client).edits.get? id = some edit' → edit' ≠ edit →
      edit.outcome = .pending ∧ ∃ verdict, happening.verdict? = some (id, verdict) ∧ edit' = edit.marked verdict
  /-- An edit leaves when it is removed, or by a timer that was set since it came, if it is committed. -/
  left : ∀ id edit, client.edits.get? id = some edit → (happening.after client).edits.get? id = none →
    happening = removed id ∨ edit.outcome = .committed ∧
      ∃ number, happening = fired number ∧ client.pruned? number = some id ∧ born id ≤ number
  /-- The edits stay in their order, and an edit that is added comes last. -/
  ordered : (happening.after client).edits.map Prod.fst =
    (client.edits.map Prod.fst).filter (fun id => (happening.after client).edits.has id) ++ happening.adds?.toList
  /-- A frame that says nothing of an edit on the list changes nothing at all. -/
  unknown : ∀ text, happening = frame text →
    (∀ id verdict, happening.verdict? = some (id, verdict) → client.edits.get? id = none) →
      happening.after client = client

/-- What happens does not contradict what happened before: an edit that is added has an id of its own, what a frame
says of an edit that is marked is what the edit carries, and a timer finds its own edit as it left it. -/
def Orderly (born : String → Nat) (client : Client) : Happening → Prop
  | added id _ _ _ => client.edits.get? id = none
  | frame text => ∀ id verdict edit, (frame text).verdict? = some (id, verdict) →
    client.edits.get? id = some edit → edit.outcome = .pending ∨ edit.marked verdict = edit
  | fired number => ∀ id edit, client.pruned? number = some id →
    client.edits.get? id = some edit → edit.outcome = .committed ∧ born id ≤ number
  | removed _ => True

end Happening

/-! ### Each step -/

namespace Happening

section steps

variable (client : Client)

@[simp] theorem edits_cancel (number : Nat) : (Client.after client (cancel number)).edits = client.edits := rfl

theorem edits_removeEdit (id : String) : (Client.after client (removeEdit id)).edits = client.edits.drop id := by
  cases found : client.edits.get? id with
  | none => simp [removeEdit, Table.has, found, Table.drop_absent client.edits found]
  | some edit =>
    simp [removeEdit, Table.has, found]
    rfl

/-- A frame does what it says to the edit of which it says something. -/
theorem after_frame (text : String) : (frame text).after client =
    match (frame text).verdict? with
    | none => client
    | some (id, verdict) => Client.after client (mark id verdict) := by
  unfold after action verdict?
  rw [after_discard]
  cases read : readFrame text with
  | error fault => simp [takeFrame, read, Except.toOption]
  | ok told =>
    cases told with
    | none => simp [takeFrame, read, Except.toOption]
    | some told => simp [takeFrame, read, Except.toOption]

theorem after_mark_unknown {id : String} (absent : client.edits.get? id = none) (verdict : Verdict) :
    Client.after client (mark id verdict) = client := by
  cases verdict with
  | committed => simp [mark, markCommitted, absent]
  | failed error => simp [mark, markFailed, absent]

theorem edits_after_mark {id : String} {edit : Edit} (there : client.edits.get? id = some edit)
    (verdict : Verdict) :
    (Client.after client (mark id verdict)).edits = client.edits.put id (edit.marked verdict) := by
  cases verdict with
  | committed =>
    simp [mark, markCommitted, there]
    rfl
  | failed error =>
    simp [mark, markFailed, there]
    rfl

theorem after_fired_unset {number : Nat} (unset : client.timer? number = none) :
    (fired number).after client = client := by
  simp [after, action, unset]

theorem after_fired {number : Nat} {timer : Timer} (set : client.timer? number = some timer) :
    (fired number).after client = Client.after (Client.after client (cancel timer.number)) (runTask timer.task) := by
  simp [after, action, set, fire]

/-- While no text is edited, a timer can only take an edit off the list. -/
theorem edits_after_fired (idle : client.session = none) (number : Nat) : ((fired number).after client).edits =
    match client.pruned? number with
    | some id => client.edits.drop id
    | none => client.edits := by
  cases set : client.timer? number with
  | none => simp [after_fired_unset client set, pruned?, set]
  | some timer =>
    rw [after_fired client set]
    cases task : timer.task with
    | prune id =>
      simp [pruned?, set, task, runTask, edits_removeEdit]
    | commit element =>
      have quiet : isEdited (Client.after client (cancel timer.number)) element = false := by
        simp [isEdited, cancel, idle]
      simp [pruned?, set, task, runTask, quiet]
    | reconnect =>
      have rests := congrArg Desk.edits (restful_reconnect (Client.after client (cancel timer.number)))
      simp only [desk_edits, edits_cancel] at rests
      simp [pruned?, set, task, runTask, rests]

variable {client} {born : String → Nat}

/-- A step that leaves the list alone keeps all edits. -/
theorem Keeps.of_same {happening : Happening} (same : (happening.after client).edits = client.edits)
    (adds : happening.adds? = none) (unknown : ∀ text, happening = frame text →
      (∀ id verdict, happening.verdict? = some (id, verdict) → client.edits.get? id = none) →
        happening.after client = client) : Keeps born client happening where
  marked id edit edit' there there' changed := by
    rw [same, there] at there'
    exact absurd (Option.some.inj there').symm changed
  left id edit there gone := by
    rw [same, there] at gone
    cases gone
  ordered := by
    rw [same, adds, Table.filter_keys_self]
    simp
  unknown := unknown

/-- A step that takes an edit off the list keeps all others. -/
theorem keeps_drop_iff {happening : Happening} {id : String} (none_added : happening.adds? = none)
    (no_frame : ∀ text, happening ≠ frame text) (drops : (happening.after client).edits = client.edits.drop id) :
    Keeps born client happening ↔ ∀ edit, client.edits.get? id = some edit →
      happening = removed id ∨ edit.outcome = .committed ∧
        ∃ number, happening = fired number ∧ client.pruned? number = some id ∧ born id ≤ number := by
  have found (other : String) : (happening.after client).edits.get? other =
      if id = other then none else client.edits.get? other := by rw [drops, Table.get?_drop]
  constructor
  · intro keeps edit there
    exact keeps.left id edit there (by simp [found])
  · intro leaves
    refine ⟨?_, ?_, ?_, ?_⟩
    · intro other edit edit' there there' changed
      by_cases same : id = other
      · simp [found, same] at there'
      · rw [found, if_neg same, there] at there'
        exact absurd (Option.some.inj there').symm changed
    · intro other edit there gone
      by_cases same : id = other
      · subst same
        exact leaves edit there
      · rw [found, if_neg same, there] at gone
        cases gone
    · rw [none_added, drops, Table.keys_drop]
      simp only [Option.toList_none, List.append_nil]
      refine List.filter_congr fun other member => ?_
      have listed := (Table.has_iff_mem client.edits other).mpr member
      by_cases same : id = other
      · simp [Table.has, Table.get?_drop, same]
      · have far : ¬other = id := fun eq => same eq.symm
        simpa [Table.has, Table.get?_drop, same, far] using listed.symm
    · intro text is_frame
      exact absurd is_frame (no_frame text)

theorem keeps_added_iff (id type : String) (target : SourceLocator) (timestamp : Float) :
    Keeps born client (added id type target timestamp) ↔ client.edits.get? id = none := by
  have puts : ((added id type target timestamp).after client).edits =
      client.edits.put id { type, target, timestamp } := rfl
  constructor
  · intro keeps
    refine (Table.get?_eq_none_iff client.edits id).mpr fun listed => ?_
    -- An edit that is replaced keeps its place, so the list does not get longer.
    have keys := Table.keys_put_old client.edits listed { type, target, timestamp }
    have order := keeps.ordered
    rw [puts, ← keys, Table.filter_keys_self, keys] at order
    simpa [adds?] using congrArg List.length order
  · intro new
    have keys := Table.keys_put_new client.edits ((Table.get?_eq_none_iff client.edits id).mp new) { type, target, timestamp }
    have apart {other : String} {edit : Edit} (there : client.edits.get? other = some edit) : ¬id = other := by
      rintro rfl
      rw [new] at there
      cases there
    refine ⟨?_, ?_, ?_, ?_⟩
    · intro other edit edit' there there' changed
      rw [puts, Table.get?_put, if_neg (apart there), there] at there'
      exact absurd (Option.some.inj there').symm changed
    · intro other edit there gone
      rw [puts, Table.get?_put, if_neg (apart there), there] at gone
      cases gone
    · rw [puts, keys]
      refine congrArg (· ++ [id]) (List.filter_eq_self.mpr fun other member => ?_).symm
      rw [Table.has_iff_mem, keys]
      exact List.mem_append_left _ member
    · intro text is_frame
      cases is_frame

theorem keeps_frame_iff (text : String) : Keeps born client (frame text) ↔ Orderly born client (frame text) := by
  unfold Orderly
  cases told : (frame text).verdict? with
  | none =>
    have same : (frame text).after client = client := by rw [after_frame, told]
    exact ⟨fun _ => by simp [told], fun _ => .of_same (by rw [same]) rfl fun _ _ _ => same⟩
  | some told' =>
    obtain ⟨id, verdict⟩ := told'
    cases there : client.edits.get? id with
    | none =>
      have same : (frame text).after client = client := by
        rw [after_frame, told]
        exact after_mark_unknown client there verdict
      refine ⟨fun _ => ?_, fun _ => .of_same (by rw [same]) rfl fun _ _ _ => same⟩
      intro other verdict' edit said there'
      obtain ⟨rfl, rfl⟩ : id = other ∧ verdict = verdict' := by simpa [told] using said
      rw [there] at there'
      cases there'
    | some edit =>
      have puts : ((frame text).after client).edits = client.edits.put id (edit.marked verdict) := by
        rw [after_frame, told]
        exact edits_after_mark client there verdict
      have listed : id ∈ client.edits.map Prod.fst := by
        rw [← Table.has_iff_mem, Table.has, there]
        rfl
      constructor
      · intro keeps other verdict' edit' said there'
        obtain ⟨rfl, rfl⟩ : id = other ∧ verdict = verdict' := by simpa [told] using said
        obtain rfl := Option.some.inj (there.symm.trans there')
        by_cases same : edit.marked verdict = edit
        · exact .inr same
        · have there' : ((frame text).after client).edits.get? id = some (edit.marked verdict) := by
            rw [puts, Table.get?_put, if_pos rfl]
          exact .inl (keeps.marked id edit _ there there' same).1
      · intro orderly
        have own := orderly id verdict edit told there
        refine ⟨?_, ?_, ?_, ?_⟩
        · intro other old new there' there'' changed
          rw [puts, Table.get?_put] at there''
          by_cases same : id = other
          · subst same
            obtain rfl := Option.some.inj (there.symm.trans there')
            obtain rfl : edit.marked verdict = new := by simpa using there''
            exact ⟨own.resolve_right changed, verdict, told, rfl⟩
          · rw [if_neg same, there'] at there''
            exact absurd (Option.some.inj there'').symm changed
        · intro other old there' gone
          rw [puts, Table.get?_put] at gone
          by_cases same : id = other
          · simp [same] at gone
          · rw [if_neg same, there'] at gone
            cases gone
        · have keys := Table.keys_put_old client.edits listed (edit.marked verdict)
          rw [puts, ← keys, Table.filter_keys_self]
          exact (List.append_nil _).symm
        · rintro _ - absent
          rw [absent id verdict told] at there
          cases there

theorem keeps_fired_iff (idle : client.session = none) (number : Nat) :
    Keeps born client (fired number) ↔ Orderly born client (fired number) := by
  unfold Orderly
  have edits := edits_after_fired client idle number
  cases prunes : client.pruned? number with
  | none =>
    rw [prunes] at edits
    exact ⟨fun _ => by simp [prunes], fun _ => .of_same edits rfl fun _ is_frame => by cases is_frame⟩
  | some id =>
    rw [prunes] at edits
    rw [keeps_drop_iff rfl (fun _ is_frame => by cases is_frame) edits]
    constructor
    · intro leaves other edit off there
      obtain rfl : id = other := by simpa [prunes] using off
      obtain removed | ⟨committed, _, same, -, young⟩ := leaves edit there
      · cases removed
      · cases same
        exact ⟨committed, young⟩
    · intro own edit there
      obtain ⟨committed, young⟩ := own id edit prunes there
      exact .inr ⟨committed, number, rfl, prunes, young⟩

theorem orderly_of_pending {text : String} (id : String) (told : (frame text).verdict?.map Prod.fst = some id)
    (pending : (client.edits.get? id).map Edit.outcome = some .pending) : Orderly born client (frame text) := by
  intro other verdict edit told' there
  obtain rfl : other = id := by simpa [told'] using told
  exact .inl (by simpa [there] using pending)

theorem orderly_of_committed {number : Nat} (id : String) (prunes : client.pruned? number = some id)
    (committed : (client.edits.get? id).map Edit.outcome = some .committed) (young : born id ≤ number) :
    Orderly born client (fired number) := by
  intro other edit prunes' there
  obtain rfl : id = other := Option.some.inj (prunes.symm.trans prunes')
  exact ⟨by simpa [there] using committed, young⟩

/-- A step keeps the edits just if it does not contradict what happened before. -/
theorem keeps_iff (idle : client.session = none) (happening : Happening) :
    Keeps born client happening ↔ Orderly born client happening := by
  cases happening with
  | added id type target timestamp => exact keeps_added_iff id type target timestamp
  | frame text => exact keeps_frame_iff text
  | fired number => exact keeps_fired_iff idle number
  | removed id =>
    have drops : ((removed id).after client).edits = client.edits.drop id := edits_removeEdit client id
    rw [keeps_drop_iff rfl (fun _ is_frame => by cases is_frame) drops]
    exact ⟨fun _ => trivial, fun _ _ _ => .inl rfl⟩

end steps

end Happening

end Retouch.Client
