import Retouch.Proofs.Client.Editing
import Retouch.Proofs.Client.Link

/-!
# Commits that are put off

An edit whose element loses the focus is not committed at once but by a timer, so that a key can still cancel it. The
timer knows the element and not the session, and looks only whether the element is edited when it fires. A session that
was opened in the meantime by a double click on the same element is committed in the place of the one that was left.

## Main statements

* `timing_after`: what a step does to the timers.
* `session_of_not_reopens`: an edit that is there after steps that did not open it was there all along.
* `Deferral.own_or_nothing`: which session a commit that was put off ends, if it ends one.
-/
namespace Retouch.Client

variable {α β : Type}

/-! ### Actions that set no timers -/

/-- The timers, and how many were set so far. -/
def clock (client : Client) : List Timer × Nat := (client.timers, client.timersSet)

/-- An action that leaves the timers alone. -/
def Untimed (action : Action α) : Prop := ∀ client : Client, (client.after action).clock = client.clock

theorem Untimed.bind {action : Action α} {next : α → Action β} (first : Untimed action)
    (second : ∀ a, Untimed (next a)) : Untimed (action >>= next) := fun client => by
  rw [after_bind, second, first]

theorem untimed_pure (a : α) : Untimed (pure a : Action α) := fun _ => rfl

theorem untimed_get : Untimed (get : Action Client) := fun _ => rfl

theorem untimed_change {f : Client → Client} (same : ∀ client, (f client).clock = client.clock) :
    Untimed (change f) := same

theorem untimed_cancelEditing : Untimed cancelEditing := by
  refine untimed_get.bind fun client => ?_
  split
  · exact fun _ => rfl
  · exact fun _ => rfl

theorem untimed_endSession : Untimed endSession := untimed_change fun _ => rfl

theorem untimed_send (message : Json) : Untimed (send message) := by
  refine untimed_get.bind fun client => ?_
  split
  · refine untimed_get.bind fun client => ?_
    split
    · exact untimed_pure _
    · exact fun _ => rfl
  · exact untimed_pure _

theorem untimed_commitElement (id : ElementId) : Untimed (commitElement id) := by
  refine untimed_get.bind fun client => ?_
  have ends (id : Option String) : Untimed (do endSession; return id) :=
    untimed_endSession.bind fun _ => untimed_pure _
  have commits : Untimed (commitEditing (client.tree.textOf id)) := by
    refine untimed_get.bind fun client => ?_
    split
    · split
      · exact ends none
      · refine Untimed.bind (fun _ => rfl) fun _ => Untimed.bind (fun _ => rfl) fun _ => ?_
        exact (untimed_send _).bind fun _ => ends _
    · exact ends none
  exact Untimed.bind (fun _ => rfl) fun _ => commits

theorem untimed_clicked (target : Option ElementId) : Untimed (clicked standardBehaviors target) := by
  have clears : Untimed clearSelection := by
    refine untimed_get.bind fun client => ?_
    split
    · exact untimed_cancelEditing.bind fun _ => untimed_change fun _ => rfl
    · exact untimed_change fun _ => rfl
  have selects (id : ElementId) (place : Option SourceLocator) : Untimed (select id place) := by
    refine untimed_get.bind fun client => ?_
    dsimp only
    split
    · exact untimed_cancelEditing.bind fun _ => untimed_change fun _ => rfl
    · exact untimed_change fun _ => rfl
  refine untimed_get.bind fun client => ?_
  split
  · exact untimed_pure _
  split
  · exact clears.bind fun _ => untimed_pure _
  split
  · exact untimed_pure _
  rename_i id _ _
  have chosen (taken : Bool) : Untimed (do
      if !taken then select id (elementTarget (← get).tree id)
      return (⟨true, true⟩ : Handling)) := by
    cases taken with
    | true => exact untimed_pure _
    | false => exact untimed_get.bind fun client => (selects id _).bind fun _ => untimed_pure _
  rw [behaviorOf?_standard]
  -- No behavior of every editor takes a click.
  cases client.tree.isTextual id <;> exact (untimed_pure false).bind chosen

theorem untimed_mouseMoved (target : Option ElementId) : Untimed (mouseMoved target) := by
  have hovers (id : ElementId) : Untimed (hover id) := by
    refine untimed_get.bind fun client => ?_
    split
    · exact untimed_pure _
    · split
      · split
        · exact untimed_change fun _ => rfl
        · exact untimed_pure _
      · exact untimed_change fun _ => rfl
  refine untimed_get.bind fun client => ?_
  split
  · split
    · split
      · exact hovers _
      · exact untimed_pure _
    · split
      · exact untimed_change fun _ => rfl
      · exact untimed_pure _
  · exact untimed_pure _

theorem untimed_keyPressed (key : Key) : Untimed (keyPressed standardBehaviors key) := by
  refine untimed_get.bind fun client => ?_
  split
  · exact untimed_pure _
  rename_i session _
  rw [behaviorOf?_standard]
  cases client.tree.isTextual session.element with
  | false => exact untimed_pure _
  | true =>
    refine untimed_get.bind fun client => ?_
    split
    · exact untimed_pure _
    split
    · exact (untimed_commitElement _).bind fun _ => untimed_pure _
    split
    · exact untimed_cancelEditing.bind fun _ => untimed_pure _
    · exact untimed_pure _

theorem untimed_runTask (task : Task) : Untimed (runTask task) := by
  cases task with
  | commit id =>
    refine untimed_get.bind fun client => ?_
    split
    · exact untimed_commitElement id
    · exact untimed_pure _
  | prune edit =>
    refine untimed_get.bind fun client => ?_
    split
    · exact untimed_change fun _ => rfl
    · exact untimed_pure _
  | reconnect =>
    refine Untimed.bind (fun _ => rfl) fun _ client => ?_
    exact Prod.ext (timers_connect client).1 (timers_connect client).2

/-! ### What a step does to the timers -/

/-- What a step can do to the timers: some may go, or the commit of the edit that is open is put off. -/
inductive Timing (client : Client) : List Timer × Nat → Prop where
  | kept (timers : List Timer) (fewer : timers ⊆ client.timers) : Timing client (timers, client.timersSet)
  | put (session : Session) (edited : client.session = some session) :
    Timing client (client.timers ++ [⟨client.timersSet, .whole 0, .commit session.element⟩], client.timersSet + 1)

section steps

variable (client : Client)

theorem Timing.refl : Timing client client.clock := .kept client.timers fun _ member => member

/-- Only the session and the timers matter. -/
theorem Timing.of_same {before client : Client} {clock : List Timer × Nat} (timing : Timing before clock)
    (session : client.session = before.session) (same : client.clock = before.clock) : Timing client clock := by
  have timers : client.timers = before.timers := congrArg Prod.fst same
  have counts : client.timersSet = before.timersSet := congrArg Prod.snd same
  cases timing with
  | kept rest fewer =>
    rw [← counts]
    exact .kept rest (timers ▸ fewer)
  | put other edited =>
    rw [← timers, ← counts]
    exact .put other (session.trans edited)

theorem timing_focusLeft (target went : Option ElementId) :
    Timing client (client.after (focusLeft standardBehaviors target went)).clock := by
  unfold focusLeft
  simp only [after_bind, after_get, said_get]
  split
  · rename_i session edited
    split
    · rw [behaviorOf?_standard]
      cases client.tree.isTextual session.element with
      | false => exact .refl client
      | true =>
        simp only [textEditing, if_true, after_bind, after_get, said_get]
        split
        · exact .put session edited
        · exact .refl client
    · exact .refl client
  · exact .refl client

theorem timing_moveFocus (target : Option ElementId) :
    Timing client (client.after (moveFocus standardBehaviors target)).clock := by
  unfold moveFocus
  simp only [after_bind, after_get, said_get]
  split
  · simp only [after_bind, after_set]
    split
    · exact (timing_focusLeft { client with focus := target } client.focus target).of_same rfl rfl
    · exact .refl client
  · exact .refl client

theorem timing_doubleClicked (target : Option ElementId) :
    Timing client (client.after (doubleClicked standardBehaviors target)).clock := by
  unfold doubleClicked
  simp only [after_bind, after_get, said_get, behaviorOf?_standard]
  split
  · exact .refl client
  · rename_i id _
    cases client.tree.isTextual id with
    | false => exact .refl client
    -- The focus is moved before the new session begins, so what is put off belongs to the one before.
    | true => exact (timing_moveFocus { client with tree := client.tree.update id _ } (some id)).of_same rfl rfl

theorem timing_of_untimed {action : Action α} (untimed : Untimed action) :
    Timing client (client.after action).clock := by
  rw [untimed]
  exact .refl client

theorem timing_handle (event : Event) : Timing client (client.after (handle standardBehaviors event)).clock := by
  cases event with
  | click target => exact timing_of_untimed client (untimed_clicked target)
  | doubleClick target => exact timing_doubleClicked client target
  | mouseMove target => exact timing_of_untimed client ((untimed_mouseMoved target).bind fun _ => untimed_pure _)
  | mouseLeave => exact .refl client
  | keyDown key => exact timing_of_untimed client (untimed_keyPressed key)
  | focusOut target went => exact timing_focusLeft client target went

/-- A step puts off a commit or sets no timer. -/
theorem timing_after (doing : Doing) : Timing client (doing.after client).clock := by
  -- What was written before matters to no step.
  have fresh : Timing { client with effects := [] } (doing.after client).clock := by
    unfold Doing.after
    generalize { client with effects := [] } = client
    cases doing with
    | event e =>
      cases listening : client.listening with
      | true =>
        rw [Doing.action, after_dispatch client listening]
        exact timing_handle client e
      | false =>
        have ignored : client.after (discard (dispatch standardBehaviors e)) = client := by
          simp [dispatch, listening]
        rw [Doing.action, ignored]
        exact .refl client
    | focus target => exact timing_moveFocus client target
    | type id text => exact .refl client
    | fire number =>
      unfold Doing.action
      simp only [after_bind, after_get, said_get]
      split
      · rename_i timer _
        rw [fire, after_bind, untimed_runTask]
        exact .kept _ List.filter_sublist.subset
      · exact .refl client
  exact fresh.of_same rfl rfl

end steps

/-- A timer whose number was given away before was set before. -/
theorem mem_timers_of_run {client : Client} {doings : List Doing} {timer : Timer}
    (there : timer ∈ (run client doings).timers) (old : timer.number < client.timersSet) : timer ∈ client.timers := by
  -- By induction on the run: a timer that a step sets gets the next number, so an old one was there before the step.
  induction doings generalizing client with
  | nil => exact there
  | cons doing rest ih =>
    have timing := timing_after client doing
    generalize clock_eq : (doing.after client).clock = clock at timing
    cases timing with
    | kept timers fewer =>
      obtain ⟨timers_eq, counts⟩ := Prod.mk.inj clock_eq
      exact fewer (timers_eq ▸ ih there (counts ▸ old))
    | put session edited =>
      obtain ⟨timers_eq, counts⟩ := Prod.mk.inj clock_eq
      have later : timer.number < (doing.after client).timersSet := by omega
      have inside := ih there later
      rw [timers_eq] at inside
      rcases List.mem_append.mp inside with before | new
      · exact before
      · rw [List.mem_singleton.mp new] at old
        exact absurd old (Nat.lt_irrefl _)

/-! ### Sessions that were there all along -/

theorem Turn.session_of_unopened {client : Client} {doing : Doing} {after : Desk} (turn : Turn client doing after)
    {session : Session} (edited : after.session = some session)
    (unopened : client.opens? doing ≠ some session.element) : client.session = some session := by
  cases turn with
  | rest => exact edited
  | typed => exact edited
  | pruned => exact edited
  | opened _ id opens =>
    obtain rfl := Option.some.inj edited
    exact absurd opens unopened
  | selected => simp at edited
  | cleared => simp at edited
  | canceled => simp at edited
  | committed => simp at edited

/-- A session that is there after steps that opened none on its element was there all along. -/
theorem session_of_not_reopens {client : Client} {doings : List Doing} {session : Session}
    (edited : (run client doings).session = some session) (calm : ¬Reopens session.element client doings) :
    client.session = some session ∧ Stays session.element client doings := by
  induction doings generalizing client with
  | nil => exact ⟨edited, congrArg (Option.map Session.element) edited⟩
  | cons doing rest ih =>
    obtain ⟨here, later⟩ := not_or.mp calm
    obtain ⟨after, stays⟩ := ih edited later
    have before : client.session = some session := (turn_after client doing).session_of_unopened after here
    exact ⟨before, congrArg (Option.map Session.element) before, stays⟩

/-! ### Commits that are put off -/

section fire

variable {client : Client} {timer : Timer} {id : ElementId} (task : timer.task = .commit id)

include task

theorem desk_fire_idle (idle : isEdited client id = false) : (client.after (fire timer)).desk = client.desk := by
  have still : isEdited (client.after (cancel timer.number)) id = false := idle
  rw [fire, task, runTask, after_bind]
  simp only [after_bind, after_get, said_get, still]
  rfl

theorem desk_fire_edited {session : Session} (edited : client.session = some session) (same : session.element = id) :
    (client.after (fire timer)).desk = client.committed session := by
  subst same
  have still : isEdited (client.after (cancel timer.number)) session.element = true :=
    (isEdited_iff _ _).mpr ⟨session, edited, rfl⟩
  have edited' : (client.after (cancel timer.number)).session = some session := edited
  rw [fire, task, runTask, after_bind]
  simp only [after_bind, after_get, said_get, still, if_true]
  rw [desk_commitElement _ edited', committed_cancel]

end fire

/-- A commit that a step puts off on a page, from this step to the time at which its timer would fire. -/
structure Deferral (page : Client) where
  element : ElementId
  number : Nat
  earlier : List Doing
  leaver : Doing
  between : List Doing
  unset : ∀ timer ∈ (run page earlier).timers, timer.number ≠ number
  sets : ∃ timer ∈ (leaver.after (run page earlier)).timers, timer.number = number ∧ timer.task = .commit element

namespace Deferral

variable {page : Client} (deferral : Deferral page)

/-- Where the element loses the focus. -/
def before : Client := run page deferral.earlier

/-- Where the timer fires. What was written before does not matter. -/
def last : Client := { run (deferral.leaver.after deferral.before) deferral.between with effects := [] }

def after : Client := (Doing.fire deferral.number).after deferral.last

/-- The timer is still set, and the element is being edited. -/
def Due : Prop := (∃ timer ∈ deferral.last.timers, timer.number = deferral.number) ∧
  deferral.last.session.map Session.element = some deferral.element

/-- An edit of the element was opened since it lost the focus. -/
def IsReopened : Prop := Reopens deferral.element deferral.before (deferral.leaver :: deferral.between)

/-- The session in which the element lost the focus is there all along, and is committed when the timer fires. -/
structure CommitsOwn (session : Session) : Prop where
  left : deferral.before.session = some session
  stays : Stays deferral.element deferral.before (deferral.leaver :: deferral.between)
  calm : ¬deferral.IsReopened
  committed : deferral.after.desk = deferral.last.committed session

/-- Only the commit of the session that is open is put off, and the timer gets a number of its own. -/
theorem timer_of_sets : ∃ session, deferral.before.session = some session ∧ session.element = deferral.element ∧
    ∀ timer ∈ deferral.last.timers, timer.number = deferral.number → timer.task = .commit deferral.element := by
  obtain ⟨timer, member, numbered, task⟩ := deferral.sets
  -- The timer is new, so it is the one that this step sets; later ones have other numbers.
  have timing := timing_after deferral.before deferral.leaver
  generalize clock_eq : (deferral.leaver.after deferral.before).clock = clock at timing
  cases timing with
  | kept timers fewer =>
    have timers_eq : (deferral.leaver.after deferral.before).timers = timers := congrArg Prod.fst clock_eq
    exact absurd numbered (deferral.unset timer (fewer (timers_eq ▸ member)))
  | put session edited =>
    obtain ⟨timers_eq, counts⟩ := Prod.mk.inj clock_eq
    have only : ∀ timer ∈ (deferral.leaver.after deferral.before).timers, timer.number = deferral.number →
        timer = ⟨deferral.before.timersSet, .whole 0, .commit session.element⟩ := by
      intro timer member numbered
      rw [timers_eq] at member
      rcases List.mem_append.mp member with old | new
      · exact absurd numbered (deferral.unset timer old)
      · exact List.mem_singleton.mp new
    have new := only timer member numbered
    have element : session.element = deferral.element := by
      rw [new] at task
      exact Task.commit.inj task
    have number : deferral.number = deferral.before.timersSet := by rw [← numbered, new]
    refine ⟨session, edited, element, ?_⟩
    intro timer member numbered
    have old : timer.number < (deferral.leaver.after deferral.before).timersSet := by omega
    rw [only timer (mem_timers_of_run member old) numbered, element]

theorem session_of_due (due : deferral.Due) :
    ∃ session, deferral.last.session = some session ∧ session.element = deferral.element :=
  Option.map_eq_some_iff.mp due.2

/-- A timer that fires while the element is edited commits the session that is open by then. -/
theorem committed_of_due (due : deferral.Due) {session : Session} (edited : deferral.last.session = some session)
    (same : session.element = deferral.element) : deferral.after.desk = deferral.last.committed session := by
  obtain ⟨-, -, -, tasks⟩ := deferral.timer_of_sets
  obtain ⟨⟨timer, member, numbered⟩, -⟩ := due
  unfold after Doing.after Doing.action
  simp only [after_bind, after_get, said_get]
  split
  · rename_i found first
    have task := tasks found (List.mem_of_find?_eq_some first) (by simpa using List.find?_some first)
    exact desk_fire_edited task edited same
  · rename_i none
    have set : (deferral.last.timers.find? fun timer => timer.number = deferral.number).isSome :=
      List.find?_isSome.mpr ⟨timer, member, by simpa using numbered⟩
    obtain ⟨found, first⟩ := Option.isSome_iff_exists.mp set
    exact (none found first).elim

theorem idle_of_not_due (idle : ¬deferral.Due) : deferral.after.desk = deferral.last.desk := by
  obtain ⟨-, -, -, tasks⟩ := deferral.timer_of_sets
  unfold after Doing.after Doing.action
  simp only [after_bind, after_get, said_get]
  split
  · rename_i found first
    have member := List.mem_of_find?_eq_some first
    have numbered : found.number = deferral.number := by simpa using List.find?_some first
    have other : isEdited deferral.last deferral.element = false := by
      by_contra still
      obtain ⟨session, edited, same⟩ := (isEdited_iff _ _).mp (by simpa using still)
      exact idle ⟨⟨found, member, numbered⟩, Option.map_eq_some_iff.mpr ⟨session, edited, same⟩⟩
    exact desk_fire_idle (tasks found member numbered) other
  · rfl

/-- A commit is put off for the session that is open on the element that loses the focus. Its timer does nothing, or
commits a session of this element; this is the session that was left unless the timer is still set, the element is
edited, and an edit of it was opened in the meantime. -/
theorem own_or_nothing : ∃ session, deferral.before.session = some session ∧ session.element = deferral.element ∧
    (deferral.after.desk = deferral.last.desk ∨ ∃ other, deferral.last.session = some other ∧
      other.element = deferral.element ∧ deferral.after.desk = deferral.last.committed other) ∧
    (deferral.after.desk = deferral.last.desk ∨ deferral.CommitsOwn session ↔
      ¬(deferral.Due ∧ deferral.IsReopened)) := by
  obtain ⟨session, left, element, -⟩ := deferral.timer_of_sets
  refine ⟨session, left, element, ?_, ?_⟩
  · by_cases due : deferral.Due
    · obtain ⟨other, edited, same⟩ := deferral.session_of_due due
      exact .inr ⟨other, edited, same, deferral.committed_of_due due edited same⟩
    · exact .inl (deferral.idle_of_not_due due)
  · constructor
    · rintro kept ⟨due, reopened⟩
      -- A due timer ends a session, so it has not done nothing.
      rcases kept with nothing | own
      · obtain ⟨other, edited, same⟩ := deferral.session_of_due due
        rw [deferral.committed_of_due due edited same] at nothing
        have ended : none = deferral.last.session := congrArg Desk.session nothing
        rw [edited] at ended
        cases ended
      · exact own.calm reopened
    · intro kept
      by_cases due : deferral.Due
      -- Where no edit was opened, the session that is committed is the one that was left.
      · obtain ⟨other, edited, same⟩ := deferral.session_of_due due
        have calm : ¬deferral.IsReopened := fun reopened => kept ⟨due, reopened⟩
        have whole : (run deferral.before (deferral.leaver :: deferral.between)).session = some other := edited
        have calm' := calm
        unfold IsReopened at calm'
        rw [← same] at calm'
        obtain ⟨before, stays⟩ := session_of_not_reopens whole calm'
        obtain rfl := Option.some.inj (left.symm.trans before)
        exact .inr ⟨left, same ▸ stays, calm, deferral.committed_of_due due edited same⟩
      · exact .inl (deferral.idle_of_not_due due)

/-- The user types into a heading after it has lost the focus. -/
def headingLeft : Deferral twoHeadings where
  element := 1
  number := 0
  earlier := [.event (.click (some 1)), .event (.doubleClick (some 1))]
  leaver := .focus none
  between := [.type 1 "new"]
  unset := by decide +kernel
  sets := by decide +kernel

theorem own_of_headingLeft : headingLeft.Due ∧ headingLeft.CommitsOwn ⟨1, "one", "a.tsx:1:1"⟩ := by
  have due : headingLeft.Due := by
    constructor
    · decide +kernel
    · decide +kernel
  have calm : ¬headingLeft.IsReopened := by
    rintro (here | here | none)
    · cases here
    · cases here
    · exact none
  have left : headingLeft.before.session = some ⟨1, "one", "a.tsx:1:1"⟩ := by decide +kernel
  obtain ⟨session, left', -, -, kept⟩ := headingLeft.own_or_nothing
  obtain rfl := Option.some.inj (left.symm.trans left')
  refine ⟨due, (kept.mpr fun both => calm both.2).resolve_left fun nothing => ?_⟩
  have ended : headingLeft.after.session = headingLeft.last.session := congrArg Desk.session nothing
  revert ended
  decide +kernel

/-- The user presses the escape key after the heading has lost the focus, and double-clicks it once more. -/
def headingReturned : Deferral twoHeadings where
  element := 1
  number := 0
  earlier := [.event (.click (some 1)), .event (.doubleClick (some 1))]
  leaver := .focus none
  between := [.event (.keyDown ⟨"Escape", false⟩), .event (.doubleClick (some 1)), .type 1 "new"]
  unset := by decide +kernel
  sets := by decide +kernel

/-- The timer ends the new session, and sends what was typed in it. -/
theorem new_session_committed : headingReturned.after.session = none ∧ headingReturned.after.edits.length = 1 ∧
    ¬(headingReturned.after.desk = headingReturned.last.desk ∨ ∃ session, headingReturned.CommitsOwn session) := by
  refine ⟨by decide +kernel, by decide +kernel, ?_⟩
  rintro (nothing | ⟨session, own⟩)
  · have ended : headingReturned.after.session = headingReturned.last.session := congrArg Desk.session nothing
    revert ended
    decide +kernel
  · refine own.calm (Or.inr (Or.inr (Or.inl ?_)))
    decide +kernel

end Deferral

end Retouch.Client
