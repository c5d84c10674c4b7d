import Retouch.Proofs.Client.Desk

/-!
# What can be said of all that happens to a client

Whatever happens to a client is made of a few operations that select, point at or edit, set and stop timers, or send an
edit; all else that is done touches neither these nor the list of edits. So a relation between states that each of the
operations keeps to is kept by events of the page, by timers, and by all that the connection goes through. A relation
that has to do with the connection as well is kept by what the user does, which leaves the connection alone.

## Main statements

* `Acting.dispatch`, `Acting.moveFocus`, `Acting.fire`: events, the focus and timers keep to such a relation.
* `Framing.opened`, `Framing.refused`, `Framing.closed`, `Framing.close`: so does the connection.
-/
namespace Retouch.Client

/-! ### Actions and relations -/

variable {α β : Type} {R : Client → Client → Prop}

/-- The action leads from each state to one that stands in the relation to it. -/
def Within (R : Client → Client → Prop) (action : Action α) : Prop := ∀ client : Client, R client (client.after action)

/-- What is selected, pointed at and edited, which edits were sent, which timers are set and what was written. -/
structure Core where
  selected : Option Selected
  hovered : Option ElementId
  session : Option Session
  edits : Table String Edit
  sent : Nat
  timers : List Timer
  lines : List (Nat × String)

def core (client : Client) : Core :=
  { selected := client.selected, hovered := client.hovered, session := client.session, edits := client.edits
    sent := client.sent, timers := client.timers, lines := written client.effects }

@[simp] theorem core_notifying (client : Client) : (notifying client).core = client.core := by
  simp [core, notifying, written_append, written_notify]

/-- The core, with what the client knows of its connection and whether it follows the page. -/
structure Frame where
  core : Core
  listening : Bool
  channel : Channel

def frame (client : Client) : Frame :=
  { core := client.core, listening := client.listening, channel := client.channel }

@[simp] theorem frame_notifying (client : Client) : (notifying client).frame = client.frame := by
  unfold frame
  rw [core_notifying]
  rfl

/-- A relation to which the operations keep that the user has done. -/
structure Acting (R : Client → Client → Prop) : Prop where
  trans : ∀ {first second third : Client}, R first second → R second third → R first third
  still : ∀ {before after : Client}, after.frame = before.frame → R before after
  /-- An element is selected with the place that it names. -/
  select : ∀ (client : Client) (id : ElementId),
    R client (client.after (Client.select id (elementTarget client.tree id)))
  clearSelection : Within R Client.clearSelection
  hover : ∀ id, Within R (Client.hover id)
  clearHover : Within R Client.clearHover
  startEditing : ∀ session, Within R (Client.startEditing session)
  endSession : Within R Client.endSession
  commitEditing : ∀ text, Within R (Client.commitEditing text)
  commitLater : ∀ id, Within R (Client.schedule (.whole 0) (.commit id))
  cancel : ∀ number, Within R (Client.cancel number)
  /-- A timer takes an edit off the list. -/
  prune : ∀ (client : Client) (timer : Timer) (id : String), timer ∈ client.timers → timer.task = .prune id →
    R client (client.after (Client.fire timer))

/-- A relation to which all operations of the client keep. -/
structure Framing (R : Client → Client → Prop) : Prop extends Acting R where
  rest : ∀ {before after : Client}, after.core = before.core → R before after
  schedule : ∀ delay task, (∀ id, task ≠ .prune id) → Within R (Client.schedule delay task)
  still := fun same => rest (congrArg Frame.core same)
  commitLater := fun _ => schedule _ _ (by simp)

/-- What a behavior does keeps to the relation. -/
structure Behavior.Keeps (R : Client → Client → Prop) (behavior : Behavior) : Prop where
  clicked : ∀ id, Within R (behavior.clicked id)
  doubleClicked : ∀ focus : ElementId → Action Unit, (∀ id, Within R (focus id)) →
    ∀ id, Within R (behavior.doubleClicked focus id)
  keyPressed : ∀ id key, Within R (behavior.keyPressed id key)
  left : ∀ id went, Within R (behavior.left id went)

def Behaviors.Keep (R : Client → Client → Prop) (behaviors : Behaviors) : Prop :=
  ∀ behavior ∈ behaviors.ordered, behavior.Keeps R

namespace Acting

variable (acting : Acting R)

include acting

/-! ### How actions are built -/

theorem pure (a : α) : Within R (Pure.pure a : Action α) := fun _ => acting.still rfl

theorem get : Within R (MonadState.get : Action Client) := fun _ => acting.still rfl

theorem bind {action : Action α} {next : α → Action β} (first : Within R action) (second : ∀ a, Within R (next a)) :
    Within R (action >>= next) := fun client => by
  rw [after_bind]
  exact acting.trans (first client) (second _ _)

theorem modify {f : Client → Client} (same : ∀ client : Client, (f client).frame = client.frame) :
    Within R (modify f) := fun client => acting.still (same client)

/-- To ask for something else than to write a text. -/
theorem emit {effect : Effect} (silent : written [effect] = []) : Within R (emit effect) := by
  refine acting.modify fun client => ?_
  simp [frame, core, written_append, silent]

/-! ### Editing texts -/

theorem closeElement (id : ElementId) : Within R (closeElement id) := acting.modify fun _ => rfl

theorem cancelEditing : Within R cancelEditing := by
  refine acting.bind acting.get fun client => ?_
  split
  · refine acting.bind (acting.modify fun _ => rfl) fun _ => ?_
    exact acting.bind (acting.closeElement _) fun _ => acting.endSession
  · exact acting.endSession

theorem commitElement (id : ElementId) : Within R (commitElement id) := by
  refine acting.bind acting.get fun client => ?_
  exact acting.bind (acting.closeElement id) fun _ => acting.commitEditing _

theorem openElement {focus : ElementId → Action Unit} (focuses : ∀ id, Within R (focus id)) (id : ElementId) :
    Within R (openElement focus id) := by
  refine acting.bind acting.get fun client => acting.bind (acting.modify fun _ => rfl) fun _ => ?_
  -- The focus comes from the page, and another edit may lose it: all that is known of it is the relation.
  refine acting.bind (focuses id) fun _ => acting.bind (acting.modify fun _ => rfl) fun _ => ?_
  exact acting.bind (acting.startEditing _) fun _ => acting.modify fun _ => rfl

theorem textEditing : textEditing.Keeps R where
  clicked _ := acting.pure false
  doubleClicked _ focuses id := acting.bind (acting.openElement focuses id) fun _ => acting.pure _
  keyPressed id key := by
    refine acting.bind acting.get fun client => ?_
    split
    · exact acting.pure _
    · split
      · exact acting.bind (acting.commitElement id) fun _ => acting.pure _
      · split
        · exact acting.bind acting.cancelEditing fun _ => acting.pure _
        · exact acting.pure _
  left id went := by
    refine acting.bind acting.get fun client => ?_
    split
    · exact acting.commitLater id
    · exact acting.pure ()

theorem standardBehaviors : standardBehaviors.Keep R := by
  intro behavior member
  rw [List.mem_singleton.mp member]
  exact acting.textEditing

/-! ### Events -/

section behaviors

variable {behaviors : Behaviors} (keep : behaviors.Keep R)

include keep

omit acting in
theorem keeps_of_counts {tree : Tree} {id : ElementId} {behavior : Behavior}
    (counts : behaviorOf? behaviors tree id = some behavior) : behavior.Keeps R := by
  obtain ⟨element, -, primary⟩ := Option.bind_eq_some_iff.mp counts
  exact keep behavior (List.mem_of_find?_eq_some primary)

theorem clicked (target : Option ElementId) : Within R (clicked behaviors target) := by
  refine acting.bind acting.get fun client => ?_
  split
  · exact acting.pure _
  split
  · exact acting.bind acting.clearSelection fun _ => acting.pure _
  rename_i id _
  -- Unless a behavior has taken the click, the element is selected with the place that it names.
  have selects (taken : Bool) : Within R (do
      if !taken then Client.select id (elementTarget (← MonadState.get).tree id)
      return (⟨true, true⟩ : Handling)) := by
    dsimp only
    split
    · exact fun client => acting.select client id
    · exact acting.bind (acting.pure ()) fun _ => acting.pure _
  split
  · exact acting.pure _
  dsimp only
  split
  · rename_i behavior counts
    exact acting.bind ((keeps_of_counts keep counts).clicked id) selects
  · exact acting.bind (acting.pure false) selects

theorem focusLeft (target went : Option ElementId) : Within R (focusLeft behaviors target went) := by
  refine acting.bind acting.get fun client => ?_
  split
  · split
    · split
      · rename_i counts
        exact (keeps_of_counts keep counts).left _ went
      · exact acting.pure ()
    · exact acting.pure ()
  · exact acting.pure ()

theorem moveFocus (target : Option ElementId) : Within R (moveFocus behaviors target) := by
  intro client
  simp only [Client.moveFocus, after_bind, after_get, said_get]
  split
  · simp only [after_bind, after_set]
    -- The focus itself is no part of the frame.
    have moved : R client { client with focus := target } := acting.still rfl
    split
    · exact acting.trans moved (acting.focusLeft keep client.focus target _)
    · exact moved
  · exact acting.still rfl

theorem blur (id : ElementId) : Within R (blur behaviors id) := by
  refine acting.bind acting.get fun client => ?_
  split
  · exact acting.moveFocus keep none
  · exact acting.pure ()

theorem doubleClicked (target : Option ElementId) : Within R (doubleClicked behaviors target) := by
  refine acting.bind acting.get fun client => ?_
  split
  · exact acting.pure _
  · split
    · rename_i counts
      exact (keeps_of_counts keep counts).doubleClicked _ (fun other => acting.moveFocus keep other) _
    · exact acting.pure _

theorem keyPressed (key : Key) : Within R (keyPressed behaviors key) := by
  refine acting.bind acting.get fun client => ?_
  split
  · exact acting.pure _
  · split
    · rename_i counts
      exact (keeps_of_counts keep counts).keyPressed _ key
    · exact acting.pure _

omit keep in
theorem mouseMoved (target : Option ElementId) : Within R (mouseMoved target) := by
  refine acting.bind acting.get fun client => ?_
  split
  · split
    · split
      · exact acting.hover _
      · exact acting.pure ()
    · split
      · exact acting.clearHover
      · exact acting.pure ()
  · exact acting.pure ()

theorem dispatch (event : Event) : Within R (dispatch behaviors event) := by
  refine acting.bind acting.get fun client => ?_
  split
  · cases event with
    | click target => exact acting.clicked keep target
    | doubleClick target => exact acting.doubleClicked keep target
    | mouseMove target => exact acting.bind (acting.mouseMoved target) fun _ => acting.pure _
    | mouseLeave => exact acting.bind acting.clearHover fun _ => acting.pure _
    | keyDown key => exact acting.keyPressed keep key
    | focusOut target went => exact acting.bind (acting.focusLeft keep target went) fun _ => acting.pure _
  · exact acting.pure _

end behaviors

/-! ### Timers -/

/-- A timer that is set fires, and it is not the one of a reconnect. -/
theorem fire {client : Client} {timer : Timer} (member : timer ∈ client.timers) (other : timer.task ≠ .reconnect) :
    R client (client.after (fire timer)) := by
  cases task : timer.task with
  | prune id => exact acting.prune client timer id member task
  | commit id =>
    unfold Client.fire
    rw [task]
    refine acting.bind (acting.cancel _) (fun _ => acting.bind acting.get fun client => ?_) client
    split
    · exact acting.commitElement id
    · exact acting.pure ()
  | reconnect => exact absurd task other

end Acting

namespace Framing

variable (framing : Framing R)

include framing

theorem modify {f : Client → Client} (same : ∀ client : Client, (f client).core = client.core) :
    Within R (modify f) := fun client => framing.rest (same client)

theorem change {f : Client → Client} (same : ∀ client : Client, (f client).core = client.core) :
    Within R (change f) := fun client => framing.rest ((core_notifying _).trans (same client))

/-! ### The connection -/

theorem setStatus (status : Status) (error : Option String) : Within R (setStatus status error) :=
  framing.change fun _ => rfl

theorem endPhase (attempt : Nat) : Within R (endPhase attempt) := framing.modify fun _ => rfl

theorem connect : Within R connect := by
  refine framing.bind framing.get fun client => ?_
  split
  · exact framing.pure _
  · refine framing.bind (framing.setStatus _ _) fun _ => fun client => framing.rest ?_
    -- To ask for a connection writes nothing.
    have lines : written (client.effects ++ [.connect client.channel.started client.settings.url]) =
        written client.effects := by
      rw [written_append]
      exact List.append_nil _
    exact congrArg (fun lines => { client.core with lines }) lines

theorem reconnect : Within R reconnect :=
  framing.bind (framing.modify fun _ => rfl) fun _ => framing.connect

theorem scheduleReconnect : Within R scheduleReconnect := by
  refine framing.bind framing.get fun client => ?_
  split
  · split
    · exact framing.bind (framing.schedule _ _ (by simp)) fun _ => framing.modify fun _ => rfl
    · exact framing.pure ()
  · exact framing.pure ()

theorem retry (reason : Option String) : Within R (retry reason) := by
  refine framing.bind framing.get fun client => ?_
  split
  · exact framing.bind (framing.setStatus _ _) fun _ => framing.scheduleReconnect
  · exact framing.setStatus _ _

theorem opened (attempt : Nat) : Within R (opened attempt) := by
  refine framing.bind framing.get fun client => ?_
  split
  · split
    · exact framing.bind (framing.endPhase attempt) fun _ => framing.emit rfl
    · refine framing.bind (framing.modify fun _ => rfl) fun _ => framing.bind (framing.modify fun _ => rfl) fun _ => ?_
      exact framing.setStatus _ _
  · exact framing.pure ()

theorem refused (attempt : Nat) : Within R (refused attempt) := by
  refine framing.bind framing.get fun client => ?_
  split
  · exact framing.bind (framing.endPhase attempt) fun _ => framing.retry _
  · exact framing.pure ()

theorem closed (attempt : Nat) : Within R (closed attempt) := by
  refine framing.bind framing.get fun client => ?_
  split
  · refine framing.bind (framing.endPhase attempt) fun _ => framing.bind (framing.modify fun _ => rfl) fun _ => ?_
    refine framing.bind framing.get fun client => ?_
    split
    · exact framing.setStatus _ _
    · exact framing.retry _
  · exact framing.pure ()

theorem giveUp : Within R giveUp := by
  refine framing.bind framing.get fun client => ?_
  split
  · dsimp only
    split
    · exact framing.bind (framing.endPhase _) fun _ => framing.emit rfl
    · exact framing.pure ()
  · exact framing.pure ()

/-- To close the socket in use, or to give up the attempt under way. -/
theorem disconnect : Within R (do
    match (← MonadState.get).channel.socket with
    | some attempt =>
      Client.emit (.close attempt)
      Client.closed attempt
    | none => Client.giveUp
    Client.setStatus .disconnected none) := by
  refine framing.bind framing.get fun client => ?_
  split
  · refine framing.bind (framing.emit rfl) fun _ => framing.bind (framing.closed _) fun _ => framing.setStatus _ _
  · exact framing.bind framing.giveUp fun _ => framing.setStatus _ _

theorem close : Within R close := by
  refine framing.bind (framing.modify fun _ => rfl) fun _ => framing.bind framing.get fun client => ?_
  split
  · refine framing.bind (framing.cancel _) fun _ => framing.bind (framing.modify fun _ => rfl) fun _ => ?_
    exact framing.disconnect
  · exact framing.disconnect

theorem start : Within R start := by
  refine framing.bind framing.get fun client => ?_
  split
  · exact framing.bind framing.connect fun _ => framing.modify fun _ => rfl
  · exact framing.pure ()

/-! ### All timers -/

/-- A timer that is set fires. -/
theorem fire {client : Client} {timer : Timer} (member : timer ∈ client.timers) :
    R client (client.after (fire timer)) := by
  by_cases reconnects : timer.task = .reconnect
  · unfold Client.fire
    rw [reconnects]
    exact framing.bind (framing.cancel _) (fun _ => framing.reconnect) client
  · exact framing.toActing.fire member reconnects

/-- The timer of a number fires, if it is set. -/
theorem fireNumber (client : Client) (number : Nat) : R client (client.after (do
    if let some timer := (← MonadState.get).timers.find? fun timer => timer.number = number then
      Client.fire timer)) := by
  simp only [after_bind, after_get, said_get]
  split
  · rename_i set
    exact framing.fire (List.mem_of_find?_eq_some set)
  · exact framing.rest rfl

end Framing

end Retouch.Client
