import Retouch.Proofs.Client.Apart
import Retouch.Proofs.Client.Link

/-!
# The user and the connection

Whatever the user does on the page, and whatever the program around the client does with its edits, the connection
stays as it is: no attempt begins or ends, no reconnect is put off, and what is written goes to the socket in use, if
there is one. What the connection goes through, on the other hand, writes nothing; and no socket comes into use but
the one to which an attempt has led.

## Main statements

* `acting_relayed`, `relayed_occurrence`: what the user does leaves the connection alone.
* `conducted_refused`, `conducted_closed`, `conducted_close`: what the connection goes through.
-/
namespace Retouch.Client

/-- Texts for the socket in use; without one they go nowhere. -/
def forSocket (socket : Option Nat) (texts : List String) : List (Nat × String) :=
  match socket with
  | some attempt => texts.map fun text => (attempt, text)
  | none => []

theorem forSocket_append (socket : Option Nat) (first second : List String) :
    forSocket socket (first ++ second) = forSocket socket first ++ forSocket socket second := by
  cases socket <;> simp [forSocket]

theorem forSocket_nil (socket : Option Nat) : forSocket socket [] = [] := by
  cases socket <;> rfl

/-- One state of the client follows another: the connection is the same, no reconnect was put off, and nothing was
written but to the socket in use. -/
structure Relayed (before after : Client) : Prop where
  channel : after.channel = before.channel
  listening : after.listening = before.listening
  alarms : after.alarms.Sublist before.alarms
  lines : ∃ texts, written after.effects = written before.effects ++ forSocket before.channel.socket texts

namespace Relayed

theorem trans {first second third : Client} (one : Relayed first second) (two : Relayed second third) :
    Relayed first third := by
  obtain ⟨earlier, lines⟩ := one.lines
  obtain ⟨later, more⟩ := two.lines
  refine ⟨two.channel.trans one.channel, two.listening.trans one.listening, two.alarms.trans one.alarms,
    earlier ++ later, ?_⟩
  rw [more, lines, one.channel, forSocket_append, List.append_assoc]

/-- A change of anything but the connection, the timers and what is written. -/
theorem of_same {before after : Client} (channel : after.channel = before.channel)
    (listening : after.listening = before.listening) (timers : after.timers = before.timers)
    (lines : written after.effects = written before.effects) : Relayed before after := by
  have alarms : after.alarms = before.alarms := congrArg (List.filter _) timers
  refine ⟨channel, listening, alarms ▸ .refl _, [], ?_⟩
  rw [lines, forSocket_nil, List.append_nil]

theorem refl (client : Client) : Relayed client client := .of_same rfl rfl rfl rfl

/-- Less timers than before. -/
theorem of_fewer {client : Client} {timers : List Timer} (fewer : timers.Sublist client.timers) :
    Relayed client { client with timers } :=
  ⟨rfl, rfl, fewer.filter _, [], by rw [forSocket_nil, List.append_nil]⟩

end Relayed

section operations

variable {α β : Type}

theorem relayed_bind {action : Action α} {next : α → Action β} (first : Within Relayed action)
    (second : ∀ a, Within Relayed (next a)) : Within Relayed (action >>= next) := fun client => by
  rw [after_bind]
  exact (first client).trans (second _ _)

theorem relayed_get : Within Relayed (get : Action Client) := .refl

theorem relayed_pure (a : α) : Within Relayed (pure a : Action α) := .refl

/-- What the client knows of its connection, the timers, and what it asks for. -/
structure Wiring where
  listening : Bool
  channel : Channel
  timers : List Timer
  effects : List Effect

def wiring (client : Client) : Wiring :=
  { listening := client.listening, channel := client.channel, timers := client.timers, effects := client.effects }

theorem relayed_modify {f : Client → Client} (same : ∀ client : Client, (f client).wiring = client.wiring) :
    Within Relayed (modify f) := fun client =>
  .of_same (congrArg Wiring.channel (same client)) (congrArg Wiring.listening (same client))
    (congrArg Wiring.timers (same client)) (congrArg (fun wiring => written wiring.effects) (same client))

/-- The subscribers are told of a change, which writes nothing. -/
theorem relayed_change {f : Client → Client} (same : ∀ client : Client, (f client).wiring = client.wiring) :
    Within Relayed (change f) := fun client => by
  have effects : (f client).effects = client.effects := congrArg Wiring.effects (same client)
  refine .of_same (congrArg Wiring.channel (same client)) (congrArg Wiring.listening (same client))
    (congrArg Wiring.timers (same client)) ?_
  rw [after_change, notifying, written_append, written_notify, List.append_nil, effects]

theorem relayed_closeElement (id : ElementId) : Within Relayed (closeElement id) :=
  relayed_modify fun _ => rfl

theorem relayed_setText (id : ElementId) (text : String) : Within Relayed (setText id text) :=
  relayed_modify fun _ => rfl

theorem relayed_endSession : Within Relayed endSession :=
  relayed_change fun _ => rfl

theorem relayed_cancelEditing : Within Relayed cancelEditing := by
  refine relayed_bind relayed_get fun client => ?_
  split
  · exact relayed_bind (relayed_setText _ _) fun _ => relayed_bind (relayed_closeElement _) fun _ => relayed_endSession
  · exact relayed_endSession

theorem relayed_putEdit (id : String) (edit : Edit) : Within Relayed (putEdit id edit) :=
  relayed_change fun _ => rfl

theorem relayed_removeEdit (id : String) : Within Relayed (removeEdit id) := by
  refine relayed_bind relayed_get fun client => ?_
  split
  · exact relayed_change fun _ => rfl
  · exact relayed_pure ()

theorem relayed_schedule (delay : Number.Amount) {task : Task} (other : task ≠ .reconnect) :
    Within Relayed (schedule delay task) := fun client => by
  have alarms : (client.after (schedule delay task)).alarms = client.alarms := by
    rw [alarms_schedule, if_neg other, List.append_nil]
  refine ⟨rfl, rfl, alarms ▸ .refl _, [], ?_⟩
  rw [forSocket_nil, List.append_nil]
  rfl

theorem relayed_cancel (number : Nat) : Within Relayed (cancel number) := fun _ => .of_fewer List.filter_sublist

/-- The client accepts a message just if a socket is in use. -/
theorem said_write (client : Client) (message : Json) :
    client.said (write message) = client.channel.socket.isSome := by
  unfold said write
  simp only [StateT.run_bind, StateT.run_get, pure_bind]
  cases client.channel.socket <;> rfl

/-- What is written goes to the socket in use. -/
theorem written_write (client : Client) (message : Json) : written (client.after (write message)).effects =
    written client.effects ++ forSocket client.channel.socket [message.write] := by
  cases socket : client.channel.socket with
  | none => simp [write, socket, forSocket]
  | some attempt => simp [write, socket, forSocket, emit, written]

theorem relayed_write (message : Json) : Within Relayed (write message) := fun client => by
  have rest : ∀ action : Action Bool, action = write message →
      (client.after action).channel = client.channel ∧ (client.after action).listening = client.listening ∧
        (client.after action).alarms = client.alarms := by
    rintro _ rfl
    cases socket : client.channel.socket with
    | none => simp [write, socket]
    | some attempt =>
      simp only [write, after_bind, after_get, said_get, socket, after_pure]
      exact ⟨rfl, rfl, rfl⟩
  obtain ⟨channel, listening, alarms⟩ := rest _ rfl
  exact ⟨channel, listening, alarms ▸ .refl _, [message.write], written_write client message⟩

theorem relayed_send (message : Json) : Within Relayed (send message) := by
  refine relayed_bind relayed_get fun client => ?_
  split
  · exact relayed_write message
  · exact relayed_pure _

theorem relayed_commitEditing (new : String) : Within Relayed (commitEditing new) := by
  refine relayed_bind relayed_get fun client => ?_
  split
  · split
    · exact relayed_bind relayed_endSession fun _ => relayed_pure _
    · dsimp only
      refine relayed_bind (relayed_modify fun _ => rfl) fun _ => ?_
      refine relayed_bind (relayed_putEdit _ _) fun _ => relayed_bind (relayed_send _) fun _ => ?_
      exact relayed_bind relayed_endSession fun _ => relayed_pure _
  · exact relayed_bind relayed_endSession fun _ => relayed_pure _

theorem relayed_select (id : ElementId) (target : Option SourceLocator) : Within Relayed (select id target) := by
  refine relayed_bind relayed_get fun client => ?_
  dsimp only
  split
  · exact relayed_bind relayed_cancelEditing fun _ => relayed_change fun _ => rfl
  · exact relayed_change fun _ => rfl

theorem relayed_clearSelection : Within Relayed clearSelection := by
  refine relayed_bind relayed_get fun client => ?_
  split
  · refine relayed_bind relayed_cancelEditing fun _ => ?_
    exact relayed_change fun _ => rfl
  · exact relayed_change fun _ => rfl

theorem relayed_clearHover : Within Relayed clearHover :=
  relayed_change fun _ => rfl

theorem relayed_hover (id : ElementId) : Within Relayed (hover id) := by
  refine relayed_bind relayed_get fun client => ?_
  split
  · exact relayed_pure ()
  · split
    · split
      · exact relayed_clearHover
      · exact relayed_pure ()
    · exact relayed_change fun _ => rfl

theorem relayed_startEditing (session : Session) : Within Relayed (startEditing session) :=
  relayed_change fun _ => rfl

theorem relayed_setStatus (status : Status) (error : Option String) : Within Relayed (setStatus status error) :=
  relayed_change fun _ => rfl

theorem relayed_mark (id : String) (verdict : Verdict) : Within Relayed (mark id verdict) := by
  cases verdict with
  | committed =>
    refine relayed_bind relayed_get fun client => ?_
    split
    · exact relayed_bind (relayed_putEdit _ _) fun _ => relayed_schedule client.settings.pruneDelay (by simp)
    · exact relayed_pure ()
  | failed error =>
    refine relayed_bind relayed_get fun client => ?_
    split
    · exact relayed_putEdit _ _
    · exact relayed_pure ()

theorem relayed_takeFrame (frame : String) : Within Relayed (takeFrame frame) := by
  unfold takeFrame
  split
  · exact relayed_pure _
  · exact relayed_pure _
  · exact relayed_bind (relayed_mark _ _) fun _ => relayed_pure _

end operations

/-- What the user does leaves the connection alone. -/
theorem acting_relayed : Acting Relayed where
  trans := Relayed.trans
  still same := .of_same (congrArg Frame.channel same) (congrArg Frame.listening same)
    (congrArg (fun frame => frame.core.timers) same) (congrArg (fun frame => frame.core.lines) same)
  select _ id := relayed_select id _ _
  clearSelection := relayed_clearSelection
  hover := relayed_hover
  clearHover := relayed_clearHover
  startEditing := relayed_startEditing
  endSession := relayed_endSession
  commitEditing := relayed_commitEditing
  commitLater _ := relayed_schedule _ (by simp)
  cancel := relayed_cancel
  prune client timer id _ task := by
    unfold fire
    rw [task]
    exact relayed_bind (relayed_cancel timer.number) (fun _ => relayed_removeEdit id) client

theorem relayed_operation (operation : Operation) : Within Relayed operation.action := by
  cases operation with
  | select element target => exact relayed_select element target
  | clearSelection => exact relayed_clearSelection
  | hover element => exact relayed_hover element
  | clearHover => exact relayed_clearHover
  | startEditing session => exact relayed_startEditing session
  | commitEditing text => exact relayed_commitEditing text
  | cancelEditing => exact relayed_cancelEditing
  | putEdit id edit => exact relayed_putEdit id edit
  | mark id verdict => exact relayed_mark id verdict
  | removeEdit id => exact relayed_removeEdit id
  | setStatus status error => exact relayed_setStatus status error
  | send message => exact relayed_send message
  | subscribe => exact fun _ => .of_same rfl rfl rfl rfl
  | unsubscribe subscriber => exact relayed_modify fun _ => rfl
  | dispose => exact fun client => ⟨rfl, rfl, List.nil_sublist _, [], by rw [forSocket_nil, List.append_nil]; rfl⟩

/-- What happens on the page, or by the program around the client. -/
def Occurrence.OnPage : Occurrence → Prop
  | .operation _ | .event _ | .focus _ | .blur _ | .page _ | .time _ => True
  | _ => False

theorem relayed_occurrence {behaviors : Behaviors} (relays : behaviors.Keep Relayed) {occurrence : Occurrence}
    (onPage : occurrence.OnPage) : Within Relayed (occurrence.action behaviors) := by
  cases occurrence with
  | operation operation => exact relayed_operation operation
  | event event => exact acting_relayed.dispatch relays event
  | focus target => exact acting_relayed.moveFocus relays target
  | blur element => exact acting_relayed.blur relays element
  | page tree => exact fun _ => .of_same rfl rfl rfl rfl
  | time now => exact fun _ => .of_same rfl rfl rfl rfl
  | fire | start | destroy | connect | close | opened | refused | closed | received => exact onPage.elim

/-! ### What the connection goes through -/

/-- The attempt has not led to a socket: it has not begun, or it is under way. -/
def Unopened (client : Client) (attempt : Nat) : Prop :=
  client.channel.started ≤ attempt ∨ phase? client attempt = some .connecting

/-- Only attempts that have begun are under way or have led to a socket. -/
def Numbered (client : Client) : Prop :=
  ∀ attempt phase, phase? client attempt = some phase → attempt < client.channel.started

/-- One state of the client follows another by what its connection goes through: nothing is written, no attempt begins
for a second time, and no socket comes into use. -/
structure Conducted (before after : Client) : Prop where
  listening : after.listening = before.listening
  ended : before.channel.ended = true → after.channel.ended = true
  lines : written after.effects = written before.effects
  numbered : before.Numbered → after.Numbered
  once : ∀ attempt, Unopened after attempt → Unopened before attempt
  kept : ∀ attempt, after.channel.socket = some attempt → before.channel.socket = some attempt

namespace Conducted

theorem refl (client : Client) : Conducted client client := ⟨rfl, id, rfl, id, fun _ => id, fun _ => id⟩

theorem trans {first second third : Client} (one : Conducted first second) (two : Conducted second third) :
    Conducted first third where
  listening := two.listening.trans one.listening
  ended := two.ended ∘ one.ended
  lines := two.lines.trans one.lines
  numbered := two.numbered ∘ one.numbered
  once attempt new := one.once attempt (two.once attempt new)
  kept attempt used := one.kept attempt (two.kept attempt used)

/-- Nothing changes about the channel. -/
theorem of_same {before after : Client} (listening : after.listening = before.listening)
    (channel : after.channel = before.channel) (lines : written after.effects = written before.effects) :
    Conducted before after where
  listening := listening
  ended := by rw [channel]; exact id
  lines := lines
  numbered := by unfold Numbered phase?; rw [channel]; exact id
  once attempt := by unfold Unopened phase?; rw [channel]; exact id
  kept attempt := by rw [channel]; exact id

end Conducted

section connection

variable {α β : Type}

theorem conducted_bind {action : Action α} {next : α → Action β} (first : Within Conducted action)
    (second : ∀ a, Within Conducted (next a)) : Within Conducted (action >>= next) := fun client => by
  rw [after_bind]
  exact (first client).trans (second _ _)

theorem conducted_get : Within Conducted (get : Action Client) := .refl

theorem conducted_pure (a : α) : Within Conducted (pure a : Action α) := .refl

theorem conducted_change {f : Client → Client} (same : ∀ client : Client, (f client).wiring = client.wiring) :
    Within Conducted (change f) := fun client => by
  have effects : (f client).effects = client.effects := congrArg Wiring.effects (same client)
  refine .of_same (congrArg Wiring.listening (same client)) (congrArg Wiring.channel (same client)) ?_
  rw [after_change, notifying, written_append, written_notify, List.append_nil, effects]

theorem conducted_emit {effect : Effect} (silent : written [effect] = []) : Within Conducted (emit effect) :=
  fun client => .of_same rfl rfl (by simp [emit, written_append, silent])

theorem conducted_setStatus (status : Status) (error : Option String) : Within Conducted (setStatus status error) :=
  conducted_change fun _ => rfl

theorem conducted_schedule (delay : Number.Amount) (task : Task) : Within Conducted (schedule delay task) :=
  fun _ => .of_same rfl rfl rfl

theorem conducted_cancel (number : Nat) : Within Conducted (cancel number) := fun _ => .of_same rfl rfl rfl

theorem conducted_mark (id : String) (verdict : Verdict) : Within Conducted (mark id verdict) := by
  have puts (edit : Edit) : Within Conducted (putEdit id edit) := conducted_change fun _ => rfl
  cases verdict with
  | committed =>
    refine conducted_bind conducted_get fun client => ?_
    split
    · exact conducted_bind (puts _) fun _ => conducted_schedule client.settings.pruneDelay (.prune id)
    · exact conducted_pure ()
  | failed error =>
    refine conducted_bind conducted_get fun client => ?_
    split
    · exact puts _
    · exact conducted_pure ()

theorem conducted_takeFrame (frame : String) : Within Conducted (takeFrame frame) := by
  unfold takeFrame
  split
  · exact conducted_pure _
  · exact conducted_pure _
  · exact conducted_bind (conducted_mark _ _) fun _ => conducted_pure _

/-- The timer of the next reconnect, and how many there were in a row, say nothing of sockets. -/
theorem conducted_calm {f : Channel → Channel} (same : ∀ channel, f channel = { channel with
      reconnect := (f channel).reconnect, attempts := (f channel).attempts }) :
    Within Conducted (modify fun client => { client with channel := f client.channel }) := fun client => by
  have same := same client.channel
  constructor
  · rfl
  · exact fun ended => (congrArg Channel.ended same).trans ended
  · rfl
  · unfold Numbered phase?
    rw [after_modify, same]
    exact id
  · intro attempt
    unfold Unopened phase?
    rw [after_modify, same]
    exact id
  · exact fun attempt used => (congrArg Channel.socket same).symm.trans used

/-- To put an end to connecting. -/
theorem conducted_ending : Within Conducted (modify fun client => { client with
    channel := { client.channel with ended := true } }) := fun _ =>
  ⟨rfl, fun _ => rfl, rfl, id, fun _ => id, fun _ => id⟩

theorem conducted_endPhase (attempt : Nat) : Within Conducted (endPhase attempt) := fun client => by
  -- What is known of another attempt is as it was.
  have kept {other : Nat} {phase : Phase} (now : phase? (client.after (endPhase attempt)) other = some phase) :
      phase? client other = some phase := by
    have dropped : (client.channel.phases.drop attempt).get? other = some phase := now
    rw [Table.get?_drop] at dropped
    split at dropped
    · cases dropped
    · exact dropped
  exact ⟨rfl, id, rfl, fun numbered other phase now => numbered other phase (kept now),
    fun other => Or.imp_right kept, fun _ => id⟩

/-- An attempt that was begun has a number of its own. -/
theorem conducted_connect : Within Conducted connect := by
  refine conducted_bind conducted_get fun client => ?_
  split
  · exact conducted_pure _
  · refine conducted_bind (conducted_setStatus _ _) fun _ client => ?_
    have put (other : Nat) (phase : Phase)
        (now : (client.channel.phases.put client.channel.started .connecting).get? other = some phase) :
        client.channel.started = other ∨ phase? client other = some phase := by
      rw [Table.get?_put] at now
      split at now
      · rename_i here
        exact .inl here
      · exact .inr now
    refine ⟨rfl, id, ?_, fun numbered other phase now => ?_, fun other new => ?_, fun _ => id⟩
    · refine (written_append _ [.connect client.channel.started client.settings.url]).trans ?_
      exact List.append_nil _
    · rcases put other phase now with here | before
      · exact here ▸ Nat.lt_succ_self _
      · exact Nat.lt_succ_of_lt (numbered other phase before)
    · rcases new with unbegun | connecting
      · exact .inl (Nat.le_of_succ_le unbegun)
      · exact (put other .connecting connecting).imp Nat.le_of_eq id

theorem conducted_scheduleReconnect : Within Conducted scheduleReconnect := by
  refine conducted_bind conducted_get fun client => ?_
  split
  · split
    · exact conducted_bind (conducted_schedule _ _) fun timer =>
        conducted_calm (f := fun channel => { channel with reconnect := some timer }) fun _ => rfl
    · exact conducted_pure ()
  · exact conducted_pure ()

theorem conducted_retry (reason : Option String) : Within Conducted (retry reason) := by
  refine conducted_bind conducted_get fun client => ?_
  split
  · exact conducted_bind (conducted_setStatus _ _) fun _ => conducted_scheduleReconnect
  · exact conducted_setStatus _ _

theorem conducted_reconnect : Within Conducted reconnect :=
  conducted_bind (conducted_calm (f := fun channel => { channel with
    reconnect := none, attempts := channel.attempts + 1 }) fun _ => rfl) fun _ => conducted_connect

/-- An attempt has led to a socket, which is now in use. -/
def led (client : Client) (attempt : Nat) : Client := { client with channel := { client.channel with
  phases := client.channel.phases.put attempt .opened, socket := some attempt, attempts := 0 } }

/-- A socket that opens comes into use, unless it is of no use any more. -/
theorem opened_cases (client : Client) (attempt : Nat) : Conducted client (client.after (opened attempt)) ∨
    phase? client attempt = some .connecting ∧
      client.after (opened attempt) = (client.led attempt).after (setStatus .connected none) := by
  by_cases connecting : phase? client attempt = some .connecting
  · cases ended : client.channel.ended with
    | true =>
      have left : client.after (opened attempt) = client.after (endPhase attempt >>= fun _ => emit (.close attempt)) := by
        simp [opened, connecting, ended]
      rw [left]
      exact .inl (conducted_bind (conducted_endPhase attempt) (fun _ => conducted_emit rfl) client)
    | false =>
      refine .inr ⟨connecting, ?_⟩
      simp [opened, connecting, ended, setPhase, led]
  · rw [after_opened_rest client connecting]
    exact .inl (.refl client)

theorem conducted_refused (attempt : Nat) : Within Conducted (refused attempt) := by
  refine conducted_bind conducted_get fun client => ?_
  split
  · exact conducted_bind (conducted_endPhase attempt) fun _ => conducted_retry _
  · exact conducted_pure ()

theorem conducted_closed (attempt : Nat) : Within Conducted (closed attempt) := by
  refine conducted_bind conducted_get fun client => ?_
  split
  · have leaves : Within Conducted (modify fun client => { client with
        channel := { client.channel with socket := none } }) := fun _ =>
      ⟨rfl, id, rfl, id, fun _ => id, fun _ used => by cases used⟩
    refine conducted_bind (conducted_endPhase attempt) fun _ => conducted_bind leaves fun _ => ?_
    refine conducted_bind conducted_get fun client => ?_
    split
    · exact conducted_setStatus _ _
    · exact conducted_retry _
  · exact conducted_pure ()

theorem conducted_received (attempt : Nat) (frame : String) : Within Conducted (received attempt frame) := by
  refine conducted_bind conducted_get fun client => ?_
  split
  · refine conducted_bind (conducted_takeFrame frame) fun answer => ?_
    split
    · exact conducted_closed attempt
    · exact conducted_pure ()
  · exact conducted_pure ()

theorem conducted_giveUp : Within Conducted giveUp := by
  refine conducted_bind conducted_get fun client => ?_
  split
  · dsimp only
    split
    · exact conducted_bind (conducted_endPhase _) fun _ => conducted_emit rfl
    · exact conducted_pure ()
  · exact conducted_pure ()

theorem conducted_close : Within Conducted close := by
  refine conducted_bind conducted_ending fun _ => conducted_bind conducted_get fun client => ?_
  have parts : Within Conducted (do
      match (← get).channel.socket with
      | some attempt =>
        emit (.close attempt)
        closed attempt
      | none => giveUp
      setStatus .disconnected none) := by
    refine conducted_bind conducted_get fun client => ?_
    split
    · exact conducted_bind (conducted_emit rfl) fun _ => conducted_bind (conducted_closed _) fun _ =>
        conducted_setStatus _ _
    · exact conducted_bind conducted_giveUp fun _ => conducted_setStatus _ _
  split
  · refine conducted_bind (conducted_cancel _) fun _ => conducted_bind ?_ fun _ => parts
    exact conducted_calm (f := fun channel => { channel with reconnect := none }) fun _ => rfl
  · exact parts

theorem conducted_fire {timer : Timer} (reconnects : timer.task = .reconnect) : Within Conducted (fire timer) := by
  unfold fire
  rw [reconnects]
  exact conducted_bind (conducted_cancel _) fun _ => conducted_reconnect

end connection

/-- A client that connects in the end has done so before. -/
theorem Conducted.open' {before after : Client} (conducted : Conducted before after)
    (open' : after.channel.ended = false) : before.channel.ended = false := by
  cases before : before.channel.ended with
  | false => rfl
  | true => cases (conducted.ended before).symm.trans open'

/-! ### Whatever happens -/

/-- One state of the client follows another, whatever has happened: what was written is for the socket in use, and a
socket that comes into use is the one of an attempt that has led to it. -/
structure Course (before after : Client) : Prop where
  lines : ∃ texts, written after.effects = written before.effects ++ forSocket before.channel.socket texts
  numbered : before.Numbered → after.Numbered
  once : ∀ attempt, Unopened after attempt → Unopened before attempt
  used : before.Numbered → ∀ attempt, after.channel.socket = some attempt →
    before.channel.socket = some attempt ∨ ¬Unopened after attempt

theorem Relayed.course {before after : Client} (relayed : Relayed before after) : Course before after where
  lines := relayed.lines
  numbered := by unfold Numbered phase?; rw [relayed.channel]; exact id
  once attempt := by unfold Unopened phase?; rw [relayed.channel]; exact id
  used _ attempt := by rw [relayed.channel]; exact .inl

theorem Conducted.course {before after : Client} (conducted : Conducted before after) : Course before after where
  lines := ⟨[], by rw [conducted.lines, forSocket_nil, List.append_nil]⟩
  numbered := conducted.numbered
  once := conducted.once
  used _ attempt used := .inl (conducted.kept attempt used)

theorem course_led {client : Client} {attempt : Nat} (connecting : phase? client attempt = some .connecting) :
    Course client ((client.led attempt).after (setStatus .connected none)) := by
  have put {other : Nat} {phase : Phase}
      (now : (client.channel.phases.put attempt .opened).get? other = some phase) :
      attempt = other ∧ phase = .opened ∨ phase? client other = some phase := by
    rw [Table.get?_put] at now
    split at now
    · rename_i here
      exact .inl ⟨here, (Option.some.inj now).symm⟩
    · exact .inr now
  have told := conducted_setStatus .connected none (client.led attempt)
  refine ⟨⟨[], ?_⟩, fun numbered => told.numbered fun other phase now => ?_, fun other new => ?_,
    fun numbered other used => .inr fun new => ?_⟩
  · rw [told.lines, forSocket_nil, List.append_nil]
    rfl
  · rcases put now with ⟨rfl, -⟩ | before
    · exact numbered attempt _ connecting
    · exact numbered other phase before
  · refine (told.once other new).imp_right fun now => ?_
    rcases put now with ⟨-, ⟨⟩⟩ | before
    exact before
  · obtain rfl : attempt = other := Option.some.inj (told.kept other used)
    rcases told.once attempt new with unbegun | now
    · exact absurd (numbered attempt _ connecting) (Nat.not_lt.mpr unbegun)
    · have now : (client.channel.phases.put attempt .opened).get? attempt = some .connecting := now
      rw [Table.get?_put, if_pos rfl] at now
      cases now

/-- The client does not follow the page any more. -/
def deafened (client : Client) : Client := { client with listening := false }

/-- What becomes of a client when something happens to it. -/
inductive Way (occurrence : Occurrence) (client after : Client) : Prop where
  | relayed (relayed : Relayed client after)
  | conducted (conducted : Conducted client after)
  | opened (attempt : Nat) (connecting : phase? client attempt = some .connecting)
      (opens : after = (client.led attempt).after (setStatus .connected none))
  | started (starts : occurrence = .start) (begins : after = { client.after connect with listening := true })
  | destroyed (destroys : occurrence = .destroy) (ends : after = (client.deafened.after close).after dispose)

theorem way_occurrence {behaviors : Behaviors} (relays : behaviors.Keep Relayed) (occurrence : Occurrence)
    (client : Client) : Way occurrence client (client.after (occurrence.action behaviors)) := by
  cases occurrence with
  | fire number =>
    simp only [Occurrence.action, after_bind, after_get, said_get]
    split
    · rename_i timer found
      by_cases reconnects : timer.task = .reconnect
      · exact .conducted (conducted_fire reconnects client)
      · exact .relayed (acting_relayed.fire (List.mem_of_find?_eq_some found) reconnects)
    · exact .relayed (.refl client)
  | start =>
    cases listening : client.listening with
    | true =>
      have same : client.after start = client := by simp [start, listening]
      exact .relayed (same.symm ▸ .refl client)
    | false => exact .started rfl (by simp [Occurrence.action, start, listening])
  | destroy => exact .destroyed rfl rfl
  | connect => exact .conducted (conducted_connect client)
  | close => exact .conducted (conducted_close client)
  | opened attempt =>
    rcases opened_cases client attempt with conducted | ⟨connecting, opens⟩
    · exact .conducted conducted
    · exact .opened attempt connecting opens
  | refused attempt => exact .conducted (conducted_refused attempt client)
  | closed attempt => exact .conducted (conducted_closed attempt client)
  | received attempt frame => exact .conducted (conducted_received attempt frame client)
  | operation | event | focus | blur | page | time => exact .relayed (relayed_occurrence relays (by trivial) client)

theorem Way.course {occurrence : Occurrence} {client after : Client} (way : Way occurrence client after) :
    Course client after := by
  cases way with
  | relayed relayed => exact relayed.course
  | conducted conducted => exact conducted.course
  | opened attempt connecting opens => exact opens ▸ course_led connecting
  | started _ begins =>
    have connects := (conducted_connect client).course
    exact begins ▸ ⟨connects.lines, connects.numbered, connects.once, connects.used⟩
  | destroyed _ ends =>
    have closes := (conducted_close client.deafened).course
    exact ends ▸ ⟨closes.lines, closes.numbered, closes.once, closes.used⟩

end Retouch.Client
