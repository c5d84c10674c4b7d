import Retouch.Proofs.Client.Desk

/-!
# What matters to the connection

Of all that the client knows, only the channel, the status and the timers of reconnects have to do with how it
connects. Each action of the channel does one thing to this part; all that has to do with edits leaves it alone,
but for the timers that it sets beside.

## Main statements

* `link_connect`, `link_retry`, `link_opened`, `link_close`: what becomes of that part.
* `aside_takeFrame`, `aside_runTask`: actions that leave it alone.
-/
namespace Retouch.Client

/-- The timers of reconnects. -/
def alarms (client : Client) : List Timer := client.timers.filter fun timer => timer.task = .reconnect

/-- What the client knows of its connection. -/
structure Link where
  settings : Settings
  channel : Channel
  status : Status
  alarms : List Timer

def link (client : Client) : Link :=
  { settings := client.settings, channel := client.channel, status := client.status, alarms := client.alarms }

section fields

variable (client : Client)

@[simp] theorem link_settings : client.link.settings = client.settings := rfl
@[simp] theorem link_channel : client.link.channel = client.channel := rfl
@[simp] theorem link_status : client.link.status = client.status := rfl
@[simp] theorem link_alarms : client.link.alarms = client.alarms := rfl

end fields

/-! ### Actions that leave the connection alone -/

/-- Timers have different numbers, all of which were given away. -/
structure Ticking (client : Client) : Prop where
  distinct : client.timers.Pairwise fun timer other => timer.number ≠ other.number
  given : ∀ timer ∈ client.timers, timer.number < client.timersSet

/-- One state of the client follows another that has the same connection. -/
structure Beside (before after : Client) : Prop where
  link : after.link = before.link
  counts : before.timersSet ≤ after.timersSet
  ticking : before.Ticking → after.Ticking

theorem Beside.refl (client : Client) : Beside client client := ⟨rfl, Nat.le_refl _, id⟩

theorem Beside.trans {first second third : Client} (one : Beside first second) (two : Beside second third) :
    Beside first third :=
  ⟨two.link.trans one.link, Nat.le_trans one.counts two.counts, two.ticking ∘ one.ticking⟩

/-- A change of anything but the connection and the timers. -/
theorem Beside.of_same {before after : Client} (link : after.link = before.link)
    (timers : after.timers = before.timers) (counts : after.timersSet = before.timersSet) :
    Beside before after := by
  refine ⟨link, Nat.le_of_eq counts.symm, fun ticking => ⟨?_, ?_⟩⟩
  · rw [timers]
    exact ticking.distinct
  · rw [timers, counts]
    exact ticking.given

/-- An action that leaves the connection alone. -/
def Aside {α : Type} (action : Action α) : Prop := ∀ client : Client, Beside client (client.after action)

section aside

variable {α β : Type}

theorem Aside.bind {action : Action α} {next : α → Action β} (first : Aside action)
    (second : ∀ a, Aside (next a)) : Aside (action >>= next) := fun client => by
  rw [after_bind]
  exact (first client).trans (second _ _)

theorem aside_pure (a : α) : Aside (pure a : Action α) := Beside.refl

theorem aside_get : Aside (get : Action Client) := Beside.refl

theorem Aside.discard {action : Action α} (rests : Aside action) : Aside (discard action) := rests

/-- What is known of the page and of the edits does not matter, and neither do the subscribers. -/
theorem aside_change {f : Client → Client} (link : ∀ client, (f client).link = client.link)
    (timers : ∀ client, (f client).timers = client.timers)
    (counts : ∀ client, (f client).timersSet = client.timersSet) : Aside (change f) := fun client =>
  .of_same (link client) (timers client) (counts client)

theorem aside_modify {f : Client → Client} (link : ∀ client, (f client).link = client.link)
    (timers : ∀ client, (f client).timers = client.timers)
    (counts : ∀ client, (f client).timersSet = client.timersSet) : Aside (modify f) := fun client =>
  .of_same (link client) (timers client) (counts client)

theorem aside_emit (effect : Effect) : Aside (emit effect) :=
  aside_modify (fun _ => rfl) (fun _ => rfl) fun _ => rfl

theorem ticking_schedule {client : Client} (ticking : client.Ticking) (delay : Number.Amount) (task : Task) :
    (client.after (schedule delay task)).Ticking := by
  constructor
  · refine List.pairwise_append.mpr ⟨ticking.distinct, List.pairwise_singleton _ _, ?_⟩
    intro timer old other new
    rw [List.mem_singleton.mp new]
    exact Nat.ne_of_lt (ticking.given timer old)
  · intro timer member
    rcases List.mem_append.mp member with old | new
    · exact Nat.lt_succ_of_lt (ticking.given timer old)
    · rw [List.mem_singleton.mp new]
      exact Nat.lt_succ_self _

theorem alarms_schedule (client : Client) (delay : Number.Amount) (task : Task) :
    (client.after (schedule delay task)).alarms =
      client.alarms ++ if task = .reconnect then [⟨client.timersSet, delay, task⟩] else [] := by
  have timers : (client.after (schedule delay task)).timers =
      client.timers ++ [⟨client.timersSet, delay, task⟩] := rfl
  unfold alarms
  rw [timers, List.filter_append]
  by_cases reconnects : task = .reconnect <;> simp [reconnects]

theorem aside_schedule (delay : Number.Amount) {task : Task} (other : task ≠ .reconnect) :
    Aside (schedule delay task) := by
  intro client
  refine ⟨?_, Nat.le_succ _, fun ticking => ticking_schedule ticking delay task⟩
  have alarms : (client.after (schedule delay task)).alarms = client.alarms := by
    rw [alarms_schedule, if_neg other, List.append_nil]
  unfold link
  rw [alarms]
  rfl

theorem aside_putEdit (id : String) (edit : Edit) : Aside (putEdit id edit) :=
  aside_change (fun _ => rfl) (fun _ => rfl) fun _ => rfl

theorem aside_removeEdit (id : String) : Aside (removeEdit id) := by
  refine aside_get.bind fun client => ?_
  split
  · exact aside_change (fun _ => rfl) (fun _ => rfl) fun _ => rfl
  · exact aside_pure ()

theorem aside_mark (id : String) (verdict : Verdict) : Aside (mark id verdict) := by
  cases verdict with
  | committed =>
    refine aside_get.bind fun client => ?_
    split
    · exact (aside_putEdit _ _).bind fun _ => (aside_schedule _ (by simp)).discard
    · exact aside_pure ()
  | failed error =>
    refine aside_get.bind fun client => ?_
    split
    · exact aside_putEdit _ _
    · exact aside_pure ()

theorem aside_takeFrame (frame : String) : Aside (takeFrame frame) := by
  unfold takeFrame
  split
  · exact aside_pure _
  · exact aside_pure _
  · exact (aside_mark _ _).bind fun _ => aside_pure _

theorem aside_endSession : Aside endSession :=
  aside_change (fun _ => rfl) (fun _ => rfl) fun _ => rfl

theorem aside_send (message : Json) : Aside (send message) := by
  refine aside_get.bind fun client => ?_
  split
  · refine aside_get.bind fun client => ?_
    split
    · exact aside_pure _
    · exact (aside_emit _).bind fun _ => aside_pure _
  · exact aside_pure _

theorem aside_commitEditing (new : String) : Aside (commitEditing new) := by
  refine aside_get.bind fun client => ?_
  split
  · split
    · exact aside_endSession.bind fun _ => aside_pure _
    · dsimp only
      refine Aside.bind ?_ fun _ => ?_
      · exact aside_modify (fun _ => rfl) (fun _ => rfl) fun _ => rfl
      refine (aside_putEdit _ _).bind fun _ => (aside_send _).bind fun _ => ?_
      exact aside_endSession.bind fun _ => aside_pure _
  · exact aside_endSession.bind fun _ => aside_pure _

theorem aside_commitElement (id : ElementId) : Aside (commitElement id) := by
  refine aside_get.bind fun client => ?_
  have closes : Aside (closeElement id) := aside_modify (fun _ => rfl) (fun _ => rfl) fun _ => rfl
  exact closes.bind fun _ => (aside_commitEditing _).discard

/-- Only a reconnect has to do with the connection. -/
theorem aside_runTask {task : Task} (other : task ≠ .reconnect) : Aside (runTask task) := by
  cases task with
  | commit id =>
    refine aside_get.bind fun client => ?_
    split
    · exact aside_commitElement id
    · exact aside_pure ()
  | prune edit => exact aside_removeEdit edit
  | reconnect => exact absurd rfl other

end aside

/-! ### What each action does to the connection -/

section actions

variable (client : Client)

theorem link_setStatus (status : Status) (error : Option String) :
    (client.after (setStatus status error)).link = { client.link with status } := rfl

theorem link_connect (open' : client.channel.ended = false) : (client.after connect).link =
    { client.link with
      status := .connecting
      channel := { client.channel with
        started := client.channel.started + 1
        phases := client.channel.phases.put client.channel.started .connecting } } := by
  conv =>
    lhs
    simp only [connect, after_bind, after_get, said_get, open', Bool.false_eq_true, if_false]
  rfl

theorem timers_connect : (client.after connect).timers = client.timers ∧
    (client.after connect).timersSet = client.timersSet := by
  simp only [connect, after_bind, after_get, said_get]
  split
  · exact ⟨rfl, rfl⟩
  · exact ⟨rfl, rfl⟩

theorem link_retry_spent (reason : Option String)
    (spent : (Number.Amount.whole client.channel.attempts).below client.settings.maxAttempts = false) :
    (client.after (retry reason)).link = { client.link with status := .error } := by
  simp only [retry, after_bind, after_get, said_get, spent, Bool.false_eq_true, if_false]
  rfl

/-- A reconnect that was not tried too often is put off, if its delay can be computed and told. -/
theorem link_retry (reason : Option String)
    (left : (Number.Amount.whole client.channel.attempts).below client.settings.maxAttempts = true) :
    (client.after (retry reason)).link =
      match (reconnectDelay? client.settings client.channel.attempts).filter Number.Amount.hasFloat with
      | some delay => { client.link with
          status := .disconnected
          channel := { client.channel with reconnect := some client.timersSet }
          alarms := client.alarms ++ [⟨client.timersSet, delay, .reconnect⟩] }
      | none => { client.link with status := .disconnected } := by
  simp only [retry, after_bind, after_get, said_get, left, if_true]
  have told : (client.after (setStatus .disconnected reason)).settings = client.settings := rfl
  have still : (client.after (setStatus .disconnected reason)).channel = client.channel := rfl
  simp only [scheduleReconnect, after_bind, after_get, said_get, told, still]
  cases computed : reconnectDelay? client.settings client.channel.attempts with
  | none => rfl
  | some delay =>
    cases tellable : delay.hasFloat with
    | false => simp [tellable, Option.filter_some, link_setStatus]
    | true =>
      simp only [tellable, Option.filter_some, if_true, after_bind, after_modify]
      have set := alarms_schedule (client.after (setStatus .disconnected reason)) delay .reconnect
      simp only [if_true] at set
      unfold link
      simp only [Link.mk.injEq]
      refine ⟨rfl, rfl, rfl, ?_⟩
      exact set

theorem link_opened {attempt : Nat} (connecting : phase? client attempt = some .connecting)
    (open' : client.channel.ended = false) : (client.after (opened attempt)).link =
    { client.link with
      status := .connected
      channel := { client.channel with
        phases := client.channel.phases.put attempt .opened
        socket := some attempt
        attempts := 0 } } := by
  conv =>
    lhs
    simp only [opened, after_bind, after_get, said_get, connecting, if_true, open', Bool.false_eq_true, if_false]
  rfl

theorem after_opened_rest {attempt : Nat} (other : phase? client attempt ≠ some .connecting) :
    client.after (opened attempt) = client := by
  simp [opened, other]

theorem after_refused {attempt : Nat} (connecting : phase? client attempt = some .connecting) :
    client.after (refused attempt) =
      (client.after (endPhase attempt)).after (retry (some "Failed to create connection")) := by
  simp [refused, connecting]

theorem after_refused_rest {attempt : Nat} (other : phase? client attempt ≠ some .connecting) :
    client.after (refused attempt) = client := by
  simp [refused, other]

/-- What is left when a socket is closed, before it is said. -/
def dropped (client : Client) (attempt : Nat) : Client := { client with
  channel := { client.channel with phases := client.channel.phases.drop attempt, socket := none } }

theorem after_closed {attempt : Nat} (opened : phase? client attempt = some .opened)
    (open' : client.channel.ended = false) :
    client.after (closed attempt) = (client.dropped attempt).after (retry none) := by
  have still : ((client.after (endPhase attempt)).after (modify fun client => { client with
      channel := { client.channel with socket := none } })).channel.ended = false := open'
  simp only [closed, after_bind, after_get, said_get, opened, if_true, still, Bool.false_eq_true, if_false]
  rfl

theorem link_closed_ended {attempt : Nat} (opened : phase? client attempt = some .opened)
    (ended : client.channel.ended = true) : (client.after (closed attempt)).link =
    { client.link with
      status := .disconnected
      channel := { client.channel with phases := client.channel.phases.drop attempt, socket := none } } := by
  have still : ((client.after (endPhase attempt)).after (modify fun client => { client with
      channel := { client.channel with socket := none } })).channel.ended = true := ended
  conv =>
    lhs
    simp only [closed, after_bind, after_get, said_get, opened, if_true, still]
  rfl

theorem after_closed_rest {attempt : Nat} (other : phase? client attempt ≠ some .opened) :
    client.after (closed attempt) = client := by
  simp [closed, other]

theorem link_reconnect (open' : client.channel.ended = false) : (client.after reconnect).link =
    { client.link with
      status := .connecting
      channel := { client.channel with
        reconnect := none
        attempts := client.channel.attempts + 1
        started := client.channel.started + 1
        phases := client.channel.phases.put client.channel.started .connecting } } := by
  unfold reconnect
  rw [after_bind, after_modify, after_discard, link_connect]
  · rfl
  · exact open'

theorem alarms_cancel (number : Nat) :
    (client.after (cancel number)).alarms = client.alarms.filter fun timer => timer.number ≠ number := by
  have timers : (client.after (cancel number)).timers =
      client.timers.filter fun timer => timer.number ≠ number := rfl
  unfold alarms
  rw [timers, List.filter_filter, List.filter_filter]
  exact List.filter_congr fun timer _ => Bool.and_comm _ _

/-- The client puts an end to connecting. -/
def ending (client : Client) : Client := { client with channel := { client.channel with ended := true } }

/-- The reconnect that was put off is given up. -/
def calmed (client : Client) : Client :=
  match client.channel.reconnect with
  | some number => { client.after (cancel number) with channel := { client.channel with reconnect := none } }
  | none => client

theorem after_close : client.after close =
    (client.ending.calmed.after (match client.ending.calmed.channel.socket with
      | some attempt => do
        emit (.close attempt)
        closed attempt
      | none => giveUp)).after (setStatus .disconnected none) := by
  unfold close
  cases waiting : client.channel.reconnect with
  | none =>
    have calm : client.ending.calmed = client.ending := by simp [calmed, ending, waiting]
    rw [calm]
    simp only [after_bind, after_get, said_get, after_modify, waiting]
    cases socket : client.channel.socket <;> simp [ending, socket, waiting]
  | some number =>
    have calm : client.ending.calmed = { client.ending.after (cancel number) with
        channel := { client.ending.channel with reconnect := none } } := by
      simp [calmed, ending, waiting]
    rw [calm]
    simp only [after_bind, after_get, said_get, after_modify, waiting]
    cases socket : client.channel.socket <;> simp [ending, socket, cancel]

/-- The timers of reconnects that are left when the one that was put off is given up. -/
def unset (client : Client) : List Timer :=
  match client.channel.reconnect with
  | some number => client.alarms.filter fun timer => timer.number ≠ number
  | none => client.alarms

theorem link_calmed : client.calmed.link =
    { client.link with channel := { client.channel with reconnect := none }, alarms := client.unset } := by
  cases waiting : client.channel.reconnect with
  | none =>
    simp only [calmed, unset, waiting, link]
    simp only [← waiting]
  | some number =>
    have filtered := alarms_cancel client number
    simp only [calmed, unset, waiting]
    unfold link
    simp only [Link.mk.injEq, true_and]
    exact ⟨rfl, rfl, filtered⟩

theorem link_ending_calmed : client.ending.calmed.link =
    { client.link with
      channel := { client.channel with ended := true, reconnect := none }
      alarms := client.unset } := link_calmed client.ending

theorem link_giveUp {started : Nat} (last : client.channel.started = started + 1)
    (connecting : phase? client started = some .connecting) : (client.after giveUp).link =
    { client.link with channel := { client.channel with phases := client.channel.phases.drop started } } := by
  have some_started : client.channel.started ≠ 0 := by omega
  have index : client.channel.started - 1 = started := by omega
  conv =>
    lhs
    simp only [giveUp, after_bind, after_get, said_get, some_started, ne_eq, not_false_eq_true, if_true, index,
      connecting]
  rfl

theorem after_giveUp_idle (idle : ∀ attempt, phase? client attempt ≠ some .connecting) :
    client.after giveUp = client := by
  simp only [giveUp, after_bind, after_get, said_get]
  split
  · simp [idle]
  · rfl

end actions

/-! ### Timers and their numbers -/

/-- An action that keeps the numbers of the timers apart. -/
def Steady {α : Type} (action : Action α) : Prop := ∀ client : Client, client.Ticking → (client.after action).Ticking

section steady

variable {α β : Type}

theorem Steady.bind {action : Action α} {next : α → Action β} (first : Steady action)
    (second : ∀ a, Steady (next a)) : Steady (action >>= next) := fun client ticking => by
  rw [after_bind]
  exact second _ _ (first client ticking)

theorem Aside.steady {action : Action α} (rests : Aside action) : Steady action := fun client =>
  (rests client).ticking

theorem steady_get : Steady (get : Action Client) := fun _ ticking => ticking

theorem steady_pure (a : α) : Steady (pure a : Action α) := fun _ ticking => ticking

theorem Ticking.of_same {before after : Client} (ticking : before.Ticking) (timers : after.timers = before.timers)
    (counts : after.timersSet = before.timersSet) : after.Ticking := by
  constructor
  · rw [timers]
    exact ticking.distinct
  · rw [timers, counts]
    exact ticking.given

theorem steady_modify {f : Client → Client} (timers : ∀ client, (f client).timers = client.timers)
    (counts : ∀ client, (f client).timersSet = client.timersSet) : Steady (modify f) :=
  fun client ticking => ticking.of_same (timers client) (counts client)

theorem steady_setStatus (status : Status) (error : Option String) : Steady (setStatus status error) :=
  fun _ ticking => ticking.of_same rfl rfl

theorem steady_cancel (number : Nat) : Steady (cancel number) := fun _ ticking =>
  ⟨ticking.distinct.filter _, fun timer member => ticking.given timer (List.mem_filter.mp member).1⟩

theorem steady_endPhase (attempt : Nat) : Steady (endPhase attempt) :=
  steady_modify (fun _ => rfl) fun _ => rfl

theorem steady_connect : Steady connect := fun client ticking => by
  obtain ⟨timers, counts⟩ := timers_connect client
  exact ticking.of_same timers counts

theorem steady_scheduleReconnect : Steady scheduleReconnect := by
  refine steady_get.bind fun client => ?_
  split
  · split
    · refine Steady.bind (fun _ ticking => ticking_schedule ticking _ _) fun _ => ?_
      exact steady_modify (fun _ => rfl) fun _ => rfl
    · exact steady_pure ()
  · exact steady_pure ()

theorem steady_retry (reason : Option String) : Steady (retry reason) := by
  refine steady_get.bind fun client => ?_
  split
  · exact (steady_setStatus _ _).bind fun _ => steady_scheduleReconnect
  · exact steady_setStatus _ _

theorem steady_reconnect : Steady reconnect := by
  refine Steady.bind ?_ fun _ => steady_connect
  exact steady_modify (fun _ => rfl) fun _ => rfl

theorem steady_opened (attempt : Nat) : Steady (opened attempt) := by
  refine steady_get.bind fun client => ?_
  split
  · split
    · exact (steady_endPhase attempt).bind fun _ => (aside_emit _).steady
    · refine Steady.bind ?_ fun _ => Steady.bind ?_ fun _ => steady_setStatus _ _
      · exact steady_modify (fun _ => rfl) fun _ => rfl
      · exact steady_modify (fun _ => rfl) fun _ => rfl
  · exact steady_pure ()

theorem steady_refused (attempt : Nat) : Steady (refused attempt) := by
  refine steady_get.bind fun client => ?_
  split
  · exact (steady_endPhase attempt).bind fun _ => steady_retry _
  · exact steady_pure ()

theorem steady_closed (attempt : Nat) : Steady (closed attempt) := by
  refine steady_get.bind fun client => ?_
  split
  · refine (steady_endPhase attempt).bind fun _ => Steady.bind ?_ fun _ => steady_get.bind fun client => ?_
    · exact steady_modify (fun _ => rfl) fun _ => rfl
    · split
      · exact steady_setStatus _ _
      · exact steady_retry _
  · exact steady_pure ()

theorem steady_received (attempt : Nat) (frame : String) : Steady (received attempt frame) := by
  refine steady_get.bind fun client => ?_
  split
  · refine (aside_takeFrame frame).steady.bind fun answer => ?_
    split
    · exact steady_closed attempt
    · exact steady_pure ()
  · exact steady_pure ()

theorem steady_giveUp : Steady giveUp := by
  refine steady_get.bind fun client => ?_
  split
  · dsimp only
    split
    · exact (steady_endPhase _).bind fun _ => (aside_emit _).steady
    · exact steady_pure ()
  · exact steady_pure ()

theorem steady_close : Steady close := by
  intro client ticking
  rw [after_close]
  refine steady_setStatus _ _ _ ?_
  have calm : client.ending.calmed.Ticking := by
    cases waiting : client.ending.channel.reconnect with
    | none =>
      have kept : client.ending.Ticking := ticking.of_same rfl rfl
      simpa [calmed, waiting] using kept
    | some number =>
      have canceled := steady_cancel number client.ending (ticking.of_same rfl rfl)
      simp only [calmed, waiting]
      exact canceled.of_same rfl rfl
  split
  · exact ((aside_emit _).steady.bind fun _ => steady_closed _) _ calm
  · exact steady_giveUp _ calm

theorem steady_fire (timer : Timer) : Steady (fire timer) := by
  refine (steady_cancel timer.number).bind fun _ => ?_
  by_cases reconnects : timer.task = .reconnect
  · rw [reconnects]
    exact steady_reconnect
  · exact (aside_runTask reconnects).steady

end steady

end Retouch.Client
