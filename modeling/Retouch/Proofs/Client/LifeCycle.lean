import Retouch.Proofs.Client.Pending

/-!
# The life of an edit on the list

An edit comes to the list as a pending one; its answer marks it as committed or as failed, once; a failed edit stays
until it is removed, and a committed one leaves when it is removed or its timer fires. All edits of a run live this
way just if nothing on the way contradicts what happened before. So it is when the ids are all different and the
server never says different things of one edit.

## Main statements

* `lifeCycle_iff`: the exact condition under which all edits of a run live this way.
* `lifeCycle_of_unanimous`: a condition that looks at ids and frames only.
* `marked_stays`: an edit that lives this way is marked once at most.
-/
namespace Retouch.Client

/-! ### Runs -/

/-- What holds of each step of a run. -/
def Throughout (holds : (String → Nat) → Client → Happening → Prop) :
    (String → Nat) → Client → List Happening → Prop
  | _, _, [] => True
  | born, client, happening :: rest =>
    holds born client happening ∧
      Throughout holds (happening.births client born) (happening.after client) rest

/-- All edits live a simple life. The edits that are there at the beginning are older than all timers. -/
def LifeCycle (client : Client) (happenings : List Happening) : Prop :=
  Throughout Happening.Keeps (fun _ => 0) client happenings

/-- Nothing contradicts what happened before. -/
def Orderly (client : Client) (happenings : List Happening) : Prop :=
  Throughout Happening.Orderly (fun _ => 0) client happenings

namespace Happening

/-- What a step leaves of the timers, of which a mark sets one. -/
structure Sets (client : Client) (happening : Happening) : Prop where
  idle : (happening.after client).session = none
  counts : client.timersSet ≤ (happening.after client).timersSet
  sets : ∀ timer ∈ (happening.after client).timers, timer ∈ client.timers ∨
    ∃ id, happening.verdict? = some (id, .committed) ∧ client.edits.get? id ≠ none ∧
      timer.task = .prune id ∧ timer.number = client.timersSet

variable {client : Client}

theorem Sets.of_same {happening : Happening} (idle : (happening.after client).session = none)
    (timers : (happening.after client).timers ⊆ client.timers)
    (counts : (happening.after client).timersSet = client.timersSet) : Sets client happening :=
  ⟨idle, Nat.le_of_eq counts.symm, fun _ member => .inl (timers member)⟩

theorem Sets.of_eq {happening : Happening} (idle : client.session = none)
    (same : happening.after client = client) : Sets client happening :=
  .of_same (by rw [same, idle]) (by rw [same]; exact fun _ member => member) (by rw [same])

theorem removeEdit_spares (client : Client) (id : String) :
    (Client.after client (removeEdit id)).session = client.session ∧
      (Client.after client (removeEdit id)).timers = client.timers ∧
        (Client.after client (removeEdit id)).timersSet = client.timersSet := by
  simp only [removeEdit, after_bind, after_get, said_get]
  split
  · exact ⟨rfl, rfl, rfl⟩
  · exact ⟨rfl, rfl, rfl⟩

theorem sets_fired (idle : client.session = none) (number : Nat) : Sets client (fired number) := by
  cases set : client.timer? number with
  | none =>
    exact .of_eq idle (after_fired_unset client set)
  | some timer =>
    have canceled : (Client.after client (cancel timer.number)).timers ⊆ client.timers :=
      fun _ member => (List.mem_filter.mp member).1
    have next := after_fired client set
    cases task : timer.task with
    | prune id =>
      rw [task] at next
      obtain ⟨session, timers, counts⟩ := removeEdit_spares (Client.after client (cancel timer.number)) id
      refine .of_same ?_ ?_ ?_ <;> rw [next]
      · exact session.trans idle
      · exact timers ▸ canceled
      · exact counts
    | commit element =>
      have quiet : isEdited (Client.after client (cancel timer.number)) element = false := by
        simp [isEdited, cancel, idle]
      have rests : Client.after (Client.after client (cancel timer.number)) (runTask (.commit element)) =
          Client.after client (cancel timer.number) := by
        simp [runTask, quiet]
      rw [task, rests] at next
      exact .of_same (by rw [next]; exact idle) (by rw [next]; exact canceled) (by rw [next]; rfl)
    | reconnect =>
      rw [task] at next
      have session := congrArg Desk.session (restful_reconnect (Client.after client (cancel timer.number)))
      obtain ⟨timers, counts⟩ := timers_connect { Client.after client (cancel timer.number) with
        channel := { client.channel with reconnect := none, attempts := client.channel.attempts + 1 } }
      refine .of_same ?_ ?_ ?_ <;> rw [next]
      · exact session.trans idle
      · exact timers ▸ canceled
      · exact counts

theorem sets_after (idle : client.session = none) (happening : Happening) : Sets client happening := by
  cases happening with
  | added id type target timestamp => exact .of_same idle (fun _ member => member) rfl
  | removed id =>
    obtain ⟨session, timers, counts⟩ := removeEdit_spares client id
    exact .of_same (session.trans idle) (timers ▸ fun _ member => member) counts
  | fired number => exact sets_fired idle number
  | frame text =>
    have next := after_frame client text
    cases told : (frame text).verdict? with
    | none =>
      rw [told] at next
      exact .of_eq idle next
    | some told' =>
      obtain ⟨id, verdict⟩ := told'
      rw [told] at next
      cases there : client.edits.get? id with
      | none =>
        exact .of_eq idle (next.trans (after_mark_unknown client there verdict))
      | some edit =>
        cases verdict with
        | failed error =>
          have marks : Client.after client (mark id (.failed error)) =
              Client.after client (putEdit id (edit.marked (.failed error))) := by
            simp [mark, markFailed, there, Edit.marked]
          have same := next.trans marks
          refine .of_same ?_ ?_ ?_ <;> rw [same]
          · exact idle
          · exact fun _ member => member
          · rfl
        | committed =>
          have marks : Client.after client (mark id .committed) =
              Client.after (Client.after client (putEdit id (edit.marked .committed)))
                (schedule client.settings.pruneDelay (.prune id)) := by
            simp [mark, markCommitted, there, Edit.marked]
          have same := next.trans marks
          refine ⟨?_, ?_, fun timer member => ?_⟩
          · rw [same]
            exact idle
          · rw [same]
            exact Nat.le_succ _
          · rw [same] at member
            rcases List.mem_append.mp member with old | new
            · exact .inl old
            · rw [List.mem_singleton.mp new]
              exact .inr ⟨id, told, by simp [there], rfl, rfl⟩

end Happening

theorem throughout_iff {client : Client} (idle : client.session = none) (born : String → Nat)
    (happenings : List Happening) :
    Throughout Happening.Keeps born client happenings ↔ Throughout Happening.Orderly born client happenings := by
  induction happenings generalizing client born with
  | nil => exact Iff.rfl
  | cons happening rest ih =>
    exact and_congr (Happening.keeps_iff idle happening) (ih (Happening.sets_after idle happening).idle _)

/-- All edits live a simple life just if nothing contradicts what happened before. -/
theorem lifeCycle_iff {client : Client} (idle : client.session = none) (happenings : List Happening) :
    LifeCycle client happenings ↔ Orderly client happenings :=
  throughout_iff idle _ happenings

/-- An edit of a text that is put on the list. -/
def addedText (id : String) : Happening := .added id "text-update" ⟨"a.tsx", 1, 1, "", []⟩ 0.0

/-- The server says what became of an edit. -/
def answerTo (id : String) (success : Bool) : Happening :=
  .frame (Json.obj [("type", .str "transform-result"), ("requestId", .str id), ("success", .bool success)]).write

/-- Of two edits, the second fails and stays until it is removed; the first is made, and its timer fires. -/
theorem lifeCycle_two_edits : ({} : Client).session = none ∧ LifeCycle {}
    [addedText "x", addedText "y", answerTo "y" false, answerTo "x" true, .fired 0, .removed "y"] := by
  refine ⟨rfl, (lifeCycle_iff rfl _).mpr ⟨rfl, rfl, ?_, ?_, ?_, trivial, trivial⟩⟩
  · exact Happening.orderly_of_pending "y" (by decide +kernel) (by decide +kernel)
  · exact Happening.orderly_of_pending "x" (by decide +kernel) (by decide +kernel)
  · exact Happening.orderly_of_committed "x" (by decide +kernel) (by decide +kernel) (by decide +kernel)

/-- An edit that failed is marked as committed by a later frame, and then a timer takes it off the list. -/
theorem failed_edit_lost :
    let failed := (answerTo "x" false).after ((addedText "x").after {})
    let marked := (answerTo "x" true).after failed
    (failed.edits.get? "x").map Edit.outcome = some .failed ∧
      (marked.edits.get? "x").map Edit.outcome = some .committed ∧
      ((Happening.fired 0).after marked).edits.has "x" = false ∧
      ¬LifeCycle {} [addedText "x", answerTo "x" false, answerTo "x" true] := by
  intro failed marked
  have before : (failed.edits.get? "x").map Edit.outcome = some .failed := by decide +kernel
  have after : (marked.edits.get? "x").map Edit.outcome = some .committed := by decide +kernel
  refine ⟨before, after, by decide +kernel, ?_⟩
  rintro ⟨-, -, keeps, -⟩
  obtain ⟨edit, there, outcome⟩ := Option.map_eq_some_iff.mp before
  obtain ⟨edit', there', outcome'⟩ := Option.map_eq_some_iff.mp after
  have changed : edit' ≠ edit := by
    rintro rfl
    cases outcome.symm.trans outcome'
  cases outcome.symm.trans (keeps.marked "x" edit edit' there there' changed).1

/-! ### An edit that is marked -/

/-- An edit stays as it is in all states of a run until it leaves the list. -/
def StaysUntilGone (id : String) (edit : Edit) : Client → List Happening → Prop
  | client, [] => client.edits.get? id = some edit
  | client, happening :: rest => client.edits.get? id = some edit ∧
    ((happening.after client).edits.get? id = none ∨ StaysUntilGone id edit (happening.after client) rest)

/-- An edit that was marked is not marked otherwise later. -/
theorem marked_stays {client : Client} {born : String → Nat} {happenings : List Happening} {id : String}
    {edit : Edit} (keeps : Throughout Happening.Keeps born client happenings)
    (there : client.edits.get? id = some edit) (marked : edit.outcome ≠ .pending) :
    StaysUntilGone id edit client happenings := by
  induction happenings generalizing client born with
  | nil => exact there
  | cons happening rest ih =>
    refine ⟨there, ?_⟩
    cases next : (happening.after client).edits.get? id with
    | none => exact .inl rfl
    | some edit' =>
      have same : edit' = edit := by
        by_contra changed
        exact marked (keeps.1.marked id edit edit' there next changed).1
      exact .inr (ih keeps.2 (same ▸ next))

/-! ### Different ids and a single answer -/

/-- No two frames say different things of one edit. -/
def Unanimous (happenings : List Happening) : Prop :=
  ∀ first ∈ happenings, ∀ second ∈ happenings, ∀ id verdict verdict',
    first.verdict? = some (id, verdict) → second.verdict? = some (id, verdict') → verdict = verdict'

/-- The ids of all edits that are put on the list. -/
def addedIds (happenings : List Happening) : List String := happenings.filterMap Happening.adds?

theorem Edit.marked_marked (edit : Edit) (verdict : Verdict) :
    (edit.marked verdict).marked verdict = edit.marked verdict := by
  cases verdict with
  | committed => rfl
  | failed error => rfl

/-- What holds in the middle of a run: every mark was given by a frame of it, and every timer is for an edit that is
committed or gone. -/
structure Settled (all : List Happening) (seen : List String) (born : String → Nat) (client : Client) : Prop where
  idle : client.session = none
  edits : ∀ id edit, client.edits.get? id = some edit → id ∈ seen ∧ (edit.outcome = .pending ∨
    ∃ happening ∈ all, ∃ verdict, happening.verdict? = some (id, verdict) ∧ edit.marked verdict = edit)
  prunes : ∀ timer ∈ client.timers, ∀ id, timer.task = .prune id → id ∈ seen ∧ born id ≤ timer.number ∧
    ∀ edit, client.edits.get? id = some edit → edit.outcome = .committed
  youth : ∀ id, born id ≤ client.timersSet

namespace Settled

variable {all : List Happening} {seen : List String} {born : String → Nat} {client : Client}

/-- What is said of an edit that is marked is what it carries. -/
theorem agrees (settled : Settled all seen born client) (unanimous : Unanimous all) {happening : Happening}
    (member : happening ∈ all) {id : String} {verdict : Verdict} {edit : Edit}
    (told : happening.verdict? = some (id, verdict)) (there : client.edits.get? id = some edit) :
    edit.outcome = .pending ∨ edit.marked verdict = edit := by
  refine (settled.edits id edit there).2.imp_right ?_
  rintro ⟨other, member', verdict', told', same⟩
  rw [unanimous happening member other member' id verdict verdict' told told']
  exact same

theorem orderly (settled : Settled all seen born client) (unanimous : Unanimous all) {happening : Happening}
    (member : happening ∈ all) (new : ∀ id, happening.adds? = some id → id ∉ seen) :
    Happening.Orderly born client happening := by
  cases happening with
  | added id type target timestamp =>
    cases there : client.edits.get? id with
    | none => exact there
    | some edit => exact absurd (settled.edits id edit there).1 (new id rfl)
  | frame text => exact fun id verdict edit told there => settled.agrees unanimous member told there
  | fired number =>
    intro id edit off there
    unfold pruned? timer? at off
    cases found : client.timers.find? fun timer => timer.number = number with
    | none => simp [found] at off
    | some timer =>
      have number_eq : timer.number = number := by simpa using List.find?_some found
      have task : timer.task = .prune id := by
        rw [found] at off
        cases task : timer.task <;> simp_all
      obtain ⟨-, young, committed⟩ := settled.prunes timer (List.mem_of_find?_eq_some found) id task
      exact ⟨committed edit there, number_eq ▸ young⟩
  | removed id => trivial

/-- A step that adds no edit keeps all this, if it changes edits only by what it says of them. -/
theorem step_of_edits (settled : Settled all seen born client) (unanimous : Unanimous all)
    {happening : Happening} (member : happening ∈ all)
    (edits : ∀ id edit', (happening.after client).edits.get? id = some edit' →
      ∃ edit, client.edits.get? id = some edit ∧
        (edit' = edit ∨ ∃ verdict, happening.verdict? = some (id, verdict) ∧ edit' = edit.marked verdict))
    (marks : ∀ id edit', happening.verdict? = some (id, .committed) →
      (happening.after client).edits.get? id = some edit' → edit'.outcome = .committed) :
    Settled all seen born (happening.after client) := by
  obtain ⟨idle, counts, sets⟩ := Happening.sets_after settled.idle happening
  refine ⟨idle, ?_, ?_, fun id => Nat.le_trans (settled.youth id) counts⟩
  · intro id edit' there'
    obtain ⟨edit, there, rfl | ⟨verdict, told, rfl⟩⟩ := edits id edit' there'
    · exact settled.edits id edit' there
    · exact ⟨(settled.edits id edit there).1,
        .inr ⟨happening, member, verdict, told, edit.marked_marked verdict⟩⟩
  · intro timer set id task
    rcases sets timer set with old | ⟨other, told, listed, task', number⟩
    · obtain ⟨known, young, committed⟩ := settled.prunes timer old id task
      refine ⟨known, young, fun edit' there' => ?_⟩
      obtain ⟨edit, there, rfl | ⟨verdict, told, rfl⟩⟩ := edits id edit' there'
      · exact committed edit' there
      · rcases settled.agrees unanimous member told there with pending | same
        · cases pending.symm.trans (committed edit there)
        · rw [same]
          exact committed edit there
    · obtain rfl : other = id := Task.prune.inj (task'.symm.trans task)
      obtain ⟨edit, there⟩ := Option.ne_none_iff_exists'.mp listed
      exact ⟨(settled.edits other edit there).1, number ▸ settled.youth other,
        fun edit' there' => marks other edit' told there'⟩

theorem step (settled : Settled all seen born client) (unanimous : Unanimous all) {happening : Happening}
    (member : happening ∈ all) (new : ∀ id, happening.adds? = some id → id ∉ seen) :
    Settled all (happening.adds?.toList ++ seen) (happening.births client born) (happening.after client) := by
  cases happening with
  | added id type target timestamp =>
    have fresh : id ∉ seen := new id rfl
    have puts (other : String) : ((Happening.added id type target timestamp).after client).edits.get? other =
        if id = other then some { type, target, timestamp } else client.edits.get? other :=
      Table.get?_put client.edits id other _
    have births (other : String) : (Happening.added id type target timestamp).births client born other =
        if id = other then client.timersSet else born other := by
      simp [Happening.births, Happening.adds?]
    refine ⟨settled.idle, ?_, ?_, ?_⟩
    · intro other edit there
      rw [puts] at there
      by_cases same : id = other
      · obtain rfl := Option.some.inj ((if_pos same).symm.trans there)
        exact ⟨by simp [Happening.adds?, same], .inl rfl⟩
      · rw [if_neg same] at there
        obtain ⟨known, mark⟩ := settled.edits other edit there
        exact ⟨List.mem_append_right _ known, mark⟩
    · intro timer set other task
      obtain ⟨known, young, committed⟩ := settled.prunes timer set other task
      have apart : ¬id = other := by
        rintro rfl
        exact fresh known
      rw [births, puts, if_neg apart, if_neg apart]
      exact ⟨List.mem_append_right _ known, young, committed⟩
    · intro other
      rw [births]
      split
      · exact Nat.le_refl _
      · exact settled.youth other
  | frame text =>
    refine settled.step_of_edits unanimous member ?_ ?_
    · intro id edit' there'
      cases told : (Happening.frame text).verdict? with
      | none =>
        rw [Happening.after_frame, told] at there'
        exact ⟨edit', there', .inl rfl⟩
      | some told' =>
        obtain ⟨other, verdict⟩ := told'
        cases there : client.edits.get? other with
        | none =>
          rw [Happening.after_frame, told] at there'
          simp only [Happening.after_mark_unknown client there] at there'
          exact ⟨edit', there', .inl rfl⟩
        | some edit =>
          rw [Happening.after_frame, told] at there'
          simp only [Happening.edits_after_mark client there, Table.get?_put] at there'
          by_cases same : other = id
          · subst same
            rw [if_pos rfl] at there'
            exact ⟨edit, there, .inr ⟨verdict, rfl, (Option.some.inj there').symm⟩⟩
          · rw [if_neg same] at there'
            exact ⟨edit', there', .inl rfl⟩
    · intro id edit' told there'
      rw [Happening.after_frame, told] at there'
      cases there : client.edits.get? id with
      | none =>
        simp only [Happening.after_mark_unknown client there] at there'
        cases there.symm.trans there'
      | some edit =>
        simp only [Happening.edits_after_mark client there, Table.get?_put, if_true] at there'
        obtain rfl := Option.some.inj there'
        rfl
  | fired number =>
    refine settled.step_of_edits unanimous member ?_ fun id edit' told => by cases told
    intro id edit' there'
    rw [Happening.edits_after_fired client settled.idle] at there'
    split at there'
    · rw [Table.get?_drop] at there'
      split at there'
      · cases there'
      · exact ⟨edit', there', .inl rfl⟩
    · exact ⟨edit', there', .inl rfl⟩
  | removed id =>
    refine settled.step_of_edits unanimous member ?_ fun id edit' told => by cases told
    intro other edit' there'
    have drops : ((Happening.removed id).after client).edits = client.edits.drop id :=
      Happening.edits_removeEdit client id
    rw [drops, Table.get?_drop] at there'
    split at there'
    · cases there'
    · exact ⟨edit', there', .inl rfl⟩

/-- The rest of a run is orderly. -/
theorem throughout (settled : Settled all seen born client) (unanimous : Unanimous all)
    {happenings : List Happening} (rest : ∀ happening ∈ happenings, happening ∈ all)
    (distinct : (addedIds happenings).Nodup) (new : ∀ id ∈ addedIds happenings, id ∉ seen) :
    Throughout Happening.Orderly born client happenings := by
  induction happenings generalizing client born seen with
  | nil => trivial
  | cons happening later ih =>
    have member := rest happening List.mem_cons_self
    have own : ∀ id, happening.adds? = some id → id ∈ addedIds (happening :: later) := fun id adds =>
      List.mem_filterMap.mpr ⟨happening, List.mem_cons_self, adds⟩
    have fresh : ∀ id, happening.adds? = some id → id ∉ seen := fun id adds => new id (own id adds)
    refine ⟨settled.orderly unanimous member fresh, ih (settled.step unanimous member fresh)
      (fun other member => rest other (List.mem_cons_of_mem _ member)) ?_ ?_⟩
    · unfold addedIds at distinct ⊢
      rw [List.filterMap_cons] at distinct
      split at distinct
      · exact distinct
      · exact (List.nodup_cons.mp distinct).2
    · intro id member known
      rcases List.mem_append.mp known with now | before
      · -- An id that is added now is not added once more.
        have adds : happening.adds? = some id := by simpa using now
        unfold addedIds at distinct
        rw [List.filterMap_cons, adds] at distinct
        exact (List.nodup_cons.mp distinct).1 member
      · obtain ⟨other, listed, adds⟩ := List.mem_filterMap.mp member
        exact new id (List.mem_filterMap.mpr ⟨other, List.mem_cons_of_mem _ listed, adds⟩) before

end Settled

/-- All edits live a simple life when they have different ids and no two frames say different things of one. -/
theorem lifeCycle_of_unanimous {client : Client} (idle : client.session = none) (empty : client.edits = [])
    (unset : ∀ timer ∈ client.timers, ∀ id, timer.task ≠ .prune id) {happenings : List Happening}
    (distinct : (addedIds happenings).Nodup) (unanimous : Unanimous happenings) :
    LifeCycle client happenings := by
  have settled : Settled happenings [] (fun _ => 0) client :=
    ⟨idle, by simp [empty], fun timer set id task => absurd task (unset timer set id), fun _ => Nat.zero_le _⟩
  exact (throughout_iff idle _ happenings).mpr
    (settled.throughout unanimous (fun _ member => member) distinct (by simp))

end Retouch.Client
