import Mathlib.Data.List.Pairwise
import Retouch.Proofs.Client.Delay
import Retouch.Proofs.Client.Link

/-!
# Reconnecting

After its first attempt to connect, a client has one thing to wait for at a time: an attempt that is under way, a
socket that is open, or the timer of a reconnect. When an attempt is refused or a socket closes, it puts a reconnect
off, by a delay that doubles each time up to a limit, until it has reconnected often enough in a row; then it gives up,
as it does when it is closed. All this depends on the delay: when it cannot be computed or told, nothing is put off
and the client waits for nothing at all.

## Main statements

* `protocol_iff`: a client connects this way in all runs just if all delays it may come to can be computed and told,
  and are exact.
* `Stage`: the states of a connection, and `Stage.next`: what each signal does to them.
-/
namespace Retouch.Client

open Number (Amount)

/-! ### What is required of a connection -/

/-- What can happen to a connection. -/
inductive Signal where
  | opened (attempt : Nat)
  | refused (attempt : Nat)
  | dropped (attempt : Nat)
  /-- A frame comes in from the socket of an attempt. -/
  | frame (attempt : Nat) (text : String)
  /-- The timer of a number fires, if it is set. -/
  | fired (number : Nat)
  /-- The client is told to put an end to connecting. -/
  | closing

namespace Signal

def action : Signal → Action Unit
  | opened attempt => Client.opened attempt
  | refused attempt => Client.refused attempt
  | dropped attempt => closed attempt
  | frame attempt text => received attempt text
  | fired number => do
    if let some timer := (← get).timers.find? fun timer => timer.number = number then fire timer
  | closing => close

def after (signal : Signal) (client : Client) : Client := Client.after client signal.action

/-- Whether a signal puts an end to the attempt that is under way, or to the socket that is open. A frame for which
there is no answer makes the client leave the socket. -/
def Breaks (client : Client) : Signal → Prop
  | refused attempt => phase? client attempt = some .connecting
  | dropped attempt => phase? client attempt = some .opened
  | frame attempt text => phase? client attempt = some .opened ∧ ∃ fault, readFrame text = .error fault
  | _ => False

end Signal

/-- How many attempts are under way, sockets are open and timers of reconnects are set. -/
def engagements (client : Client) : Nat := client.channel.phases.length + client.alarms.length

/-- The delays of the reconnects that were put off from one state to the next. -/
def putOff (before after : Client) : List Amount :=
  (after.alarms.filter fun timer => before.timersSet ≤ timer.number).map Timer.delay

/-- The delays of all reconnects that were put off since a socket was opened last. -/
def nextRow (row : List Amount) (before after : Client) : List Amount :=
  if before.channel.socket.isNone && after.channel.socket.isSome then [] else row ++ putOff before after

/-- What holds in each state, when so many reconnects were put off since a socket was opened last. -/
structure Poised (row : List Amount) (client : Client) : Prop where
  single : client.engagements ≤ 1
  /-- The delays double up to the limit. -/
  paced : ∀ i delay, row[i]? = some delay →
    ∃ exact, exactDelay? client.settings i = some exact ∧ delay.value? = some exact
  /-- There are no more reconnects in a row than the settings allow. -/
  bounded : ∀ i < row.length, allows client.settings i = true
  /-- Until it is closed, the client has something to wait for, unless it has reconnected often enough. -/
  engaged : client.channel.ended = false →
    client.engagements = 1 ∨ client.status = .error ∧ allows client.settings row.length = false
  closed : client.channel.ended = true → client.engagements = 0 ∧ client.status = .disconnected

/-- What each signal does. -/
structure Proceeds (row : List Amount) (client : Client) (signal : Signal) : Prop where
  /-- When the client has given up or was closed, nothing is attempted or put off any more. -/
  still : client.channel.ended = true ∨ client.status = .error →
    (signal.after client).channel.started = client.channel.started ∧ putOff client (signal.after client) = [] ∧
      (signal ≠ .closing → (signal.after client).status = client.status)
  /-- When an attempt is refused or a socket closes, a reconnect is put off, as long as one is left. -/
  retried : signal.Breaks client → client.channel.ended = false → allows client.settings row.length = true →
    ∃ delay, putOff client (signal.after client) = [delay]
  spent : signal.Breaks client → client.channel.ended = false → allows client.settings row.length = false →
    (signal.after client).status = .error

/-- The client connects as it should, in all states of a run and by each signal. -/
def Protocol : List Amount → Client → List Signal → Prop
  | row, client, [] => Poised row client
  | row, client, signal :: rest => Poised row client ∧ Proceeds row client signal ∧
    Protocol (nextRow row client (signal.after client)) (signal.after client) rest

/-- A client that has not connected yet. -/
structure Fresh (client : Client) : Prop where
  channel : client.channel = {}
  quiet : client.alarms = []
  ticking : client.Ticking

/-! ### The stages of a connection -/

/-- Nothing is under way. -/
def idleChannel (attempts started : Nat) (ended : Bool) : Channel := { attempts, ended, started }

/-- The stages of a connection, when so many reconnects were put off in a row. -/
inductive Stage (row : List Amount) (link : Link) : Prop where
  | trying (n : Nat)
    (channel : link.channel = ⟨row.length, false, n + 1, [(n, .connecting)], none, none⟩)
    (status : link.status = .connecting) (alarms : link.alarms = [])
  | online (n : Nat) (empty : row = [])
    (channel : link.channel = ⟨0, false, n + 1, [(n, .opened)], some n, none⟩)
    (status : link.status = .connected) (alarms : link.alarms = [])
  | waiting (attempts started number : Nat) (delay : Amount) (length : row.length = attempts + 1)
    (channel : link.channel = ⟨attempts, false, started, [], none, some number⟩)
    (status : link.status = .disconnected) (alarms : link.alarms = [⟨number, delay, .reconnect⟩])
  | failed (started : Nat) (spent : allows link.settings row.length = false)
    (channel : link.channel = idleChannel row.length started false)
    (status : link.status = .error) (alarms : link.alarms = [])
  | ended (attempts started : Nat)
    (channel : link.channel = idleChannel attempts started true)
    (status : link.status = .disconnected) (alarms : link.alarms = [])

/-- The delays of a row are those that were computed. -/
structure Paced (settings : Settings) (row : List Amount) : Prop where
  computed : ∀ i delay, row[i]? = some delay → reconnectDelay? settings i = some delay
  bounded : ∀ i < row.length, allows settings i = true

theorem Paced.append {settings : Settings} {row : List Amount} (paced : Paced settings row) {delay : Amount}
    (computed : reconnectDelay? settings row.length = some delay) (left : allows settings row.length = true) :
    Paced settings (row ++ [delay]) := by
  constructor
  · intro i other here
    rcases Nat.lt_trichotomy i row.length with less | same | more
    · rw [List.getElem?_append_left less] at here
      exact paced.computed i other here
    · subst same
      rw [List.getElem?_concat_length] at here
      exact Option.some.inj here ▸ computed
    · rw [List.getElem?_eq_none (by simp; omega)] at here
      cases here
  · intro i less
    rw [List.length_append, List.length_singleton] at less
    rcases Nat.lt_succ_iff_lt_or_eq.mp less with before | last
    · exact paced.bounded i before
    · exact last ▸ left

/-- All that is known in the middle of a run. -/
structure Running (settings : Settings) (row : List Amount) (client : Client) : Prop where
  configured : client.settings = settings
  ticking : client.Ticking
  paced : Paced settings row
  stage : Stage row client.link

section poised

variable {settings : Settings} {row : List Amount} {client : Client}

theorem Stage.engagements (stage : Stage row client.link) : client.engagements ≤ 1 ∧
    (client.channel.ended = false →
      client.engagements = 1 ∨ client.status = .error ∧ allows client.settings row.length = false) ∧
    (client.channel.ended = true → client.engagements = 0 ∧ client.status = .disconnected) := by
  unfold Client.engagements
  cases stage with
  | trying n channel status alarms =>
    simp only [link_channel, link_alarms] at channel alarms
    simp [channel, alarms]
  | online n empty channel status alarms =>
    simp only [link_channel, link_alarms] at channel alarms
    simp [channel, alarms]
  | waiting attempts started number delay length channel status alarms =>
    simp only [link_channel, link_alarms] at channel alarms
    simp [channel, alarms]
  | failed started spent channel status alarms =>
    simp only [link_channel, link_alarms, link_status, link_settings] at channel alarms status spent
    simp [channel, alarms, idleChannel, status, spent]
  | ended attempts started channel status alarms =>
    simp only [link_channel, link_alarms, link_status] at channel alarms status
    simp [channel, alarms, idleChannel, status]

theorem Running.poised (running : Running settings row client)
    (timely : ∀ i < row.length, TimelyAt settings i) : Poised row client := by
  obtain ⟨single, engaged, closed⟩ := running.stage.engagements
  refine ⟨single, ?_, running.configured ▸ running.paced.bounded, engaged, closed⟩
  intro i delay here
  obtain ⟨less, -⟩ := List.getElem?_eq_some_iff.mp here
  obtain ⟨delay', exact, computed, -, known, value⟩ := timely i less (running.paced.bounded i less)
  have same := Option.some.inj (computed.symm.trans (running.paced.computed i delay here))
  exact ⟨exact, running.configured ▸ known, same ▸ value⟩

end poised

/-! ### What each signal does -/

theorem putOff_old {before after : Client} (ticking : before.Ticking)
    (old : ∀ timer ∈ after.alarms, timer ∈ before.alarms) : putOff before after = [] := by
  unfold putOff
  rw [List.filter_eq_nil_iff.mpr, List.map_nil]
  intro timer member
  have given := ticking.given timer (List.mem_filter.mp (old timer member)).1
  simpa using given

theorem putOff_new {before after : Client} {delay : Amount}
    (alarms : after.alarms = [⟨before.timersSet, delay, .reconnect⟩]) : putOff before after = [delay] := by
  simp [putOff, alarms]

section steps

variable {settings : Settings} {row : List Amount} {client : Client} {signal : Signal}

/-- What one signal does in the middle of a run. -/
structure Next (settings : Settings) (row : List Amount) (client : Client) (signal : Signal) : Prop where
  running : Running settings (nextRow row client (signal.after client)) (signal.after client)
  proceeds : Proceeds row client signal

/-- A signal that leaves the connection alone. -/
theorem Running.next_rest (running : Running settings row client) (unbroken : ¬signal.Breaks client)
    (same : (signal.after client).link = client.link) (ticking : (signal.after client).Ticking) :
    Next settings row client signal := by
  have channel : (signal.after client).channel = client.channel := congrArg Link.channel same
  have status : (signal.after client).status = client.status := congrArg Link.status same
  have alarms : (signal.after client).alarms = client.alarms := congrArg Link.alarms same
  have nothing : putOff client (signal.after client) = [] :=
    putOff_old running.ticking fun timer member => alarms ▸ member
  have stays : nextRow row client (signal.after client) = row := by
    unfold nextRow
    rw [channel, nothing, List.append_nil]
    cases client.channel.socket <;> simp
  refine ⟨?_, ?_⟩
  · rw [stays]
    exact ⟨(congrArg Link.settings same).trans running.configured, ticking, running.paced, same ▸ running.stage⟩
  · exact ⟨fun _ => ⟨by rw [channel], nothing, fun _ => status⟩,
      fun breaks => absurd breaks unbroken, fun breaks => absurd breaks unbroken⟩

/-- When an attempt was refused or a socket was closed, the client waits for a reconnect or gives up. -/
theorem Running.next_broken (running : Running settings row client) (open' : client.channel.ended = false)
    (sound : client.status ≠ .error) {base : Client} {reason : Option String}
    (same : signal.after client = base.after (retry reason))
    (configured : base.settings = client.settings) (counts : base.timersSet = client.timersSet)
    (ticking : (signal.after client).Ticking) {started : Nat}
    (channel : base.channel = idleChannel row.length started false) (alarms : base.alarms = [])
    (timely : TimelyAt settings row.length) : Next settings row client signal := by
  have configured' : base.settings = settings := configured.trans running.configured
  have attempts : base.channel.attempts = row.length := by rw [channel]; rfl
  have awake : ¬(client.channel.ended = true ∨ client.status = .error) := by simp [open', sound]
  cases left : allows settings row.length with
  | true =>
    obtain ⟨delay, -, computed, tellable, -⟩ := timely left
    have link := link_retry base reason (by rw [attempts, configured']; exact left)
    simp only [attempts, configured', computed, Option.filter_some, tellable, if_true] at link
    rw [← same] at link
    have channel' : (signal.after client).channel =
        ⟨row.length, false, started, [], none, some base.timersSet⟩ := by
      have eq := congrArg Link.channel link
      simpa [channel, idleChannel] using eq
    have alarms' : (signal.after client).alarms = [⟨base.timersSet, delay, .reconnect⟩] := by
      have eq := congrArg Link.alarms link
      simpa [alarms] using eq
    have new : putOff client (signal.after client) = [delay] := putOff_new (counts ▸ alarms')
    have next : nextRow row client (signal.after client) = row ++ [delay] := by
      simp [nextRow, channel', new]
    refine ⟨?_, ?_⟩
    · rw [next]
      refine ⟨(congrArg Link.settings link).trans configured', ticking, running.paced.append computed left, ?_⟩
      exact .waiting row.length started _ delay (by simp) channel' (congrArg Link.status link) alarms'
    · refine ⟨fun asleep => absurd asleep awake, fun _ _ _ => ⟨delay, new⟩, fun _ _ spent => ?_⟩
      rw [running.configured, left] at spent
      cases spent
  | false =>
    have link := link_retry_spent base reason (by rw [attempts, configured']; exact left)
    rw [← same] at link
    have channel' : (signal.after client).channel = idleChannel row.length started false :=
      (congrArg Link.channel link).trans channel
    have alarms' : (signal.after client).alarms = [] := (congrArg Link.alarms link).trans alarms
    have nothing : putOff client (signal.after client) = [] :=
      putOff_old running.ticking (by simp [alarms'])
    have next : nextRow row client (signal.after client) = row := by
      simp [nextRow, channel', idleChannel, nothing]
    refine ⟨?_, ?_⟩
    · rw [next]
      refine ⟨(congrArg Link.settings link).trans configured', ticking, running.paced, ?_⟩
      refine .failed started ?_ channel' (congrArg Link.status link) alarms'
      rw [show (signal.after client).link.settings = settings from (congrArg Link.settings link).trans configured']
      exact left
    · refine ⟨fun asleep => absurd asleep awake, fun _ _ more => ?_, fun _ _ _ => congrArg Link.status link⟩
      rw [running.configured, left] at more
      cases more

theorem Stage.of_connecting (stage : Stage row client.link) {attempt : Nat}
    (connecting : phase? client attempt = some .connecting) :
    client.channel = ⟨row.length, false, attempt + 1, [(attempt, .connecting)], none, none⟩ ∧
      client.status = .connecting ∧ client.alarms = [] := by
  unfold phase? at connecting
  cases stage with
  | trying n channel status alarms =>
    have same : n = attempt := by
      by_contra other
      simp only [link_channel] at channel
      simp [channel, Table.get?, other] at connecting
    exact same ▸ ⟨channel, status, alarms⟩
  | online n empty channel =>
    simp only [link_channel] at channel
    by_cases same : n = attempt <;> simp [channel, Table.get?, same] at connecting
  | waiting attempts started number delay length channel =>
    simp only [link_channel] at channel
    simp [channel] at connecting
  | failed started spent channel =>
    simp only [link_channel] at channel
    simp [channel, idleChannel] at connecting
  | ended attempts started channel =>
    simp only [link_channel] at channel
    simp [channel, idleChannel] at connecting

theorem Stage.of_opened (stage : Stage row client.link) {attempt : Nat}
    (opened : phase? client attempt = some .opened) : row = [] ∧
    client.channel = ⟨0, false, attempt + 1, [(attempt, .opened)], some attempt, none⟩ ∧
      client.status = .connected ∧ client.alarms = [] := by
  unfold phase? at opened
  cases stage with
  | trying n channel =>
    simp only [link_channel] at channel
    by_cases same : n = attempt <;> simp [channel, Table.get?, same] at opened
  | online n empty channel status alarms =>
    have same : n = attempt := by
      by_contra other
      simp only [link_channel] at channel
      simp [channel, Table.get?, other] at opened
    exact same ▸ ⟨empty, channel, status, alarms⟩
  | waiting attempts started number delay length channel =>
    simp only [link_channel] at channel
    simp [channel] at opened
  | failed started spent channel =>
    simp only [link_channel] at channel
    simp [channel, idleChannel] at opened
  | ended attempts started channel =>
    simp only [link_channel] at channel
    simp [channel, idleChannel] at opened

theorem Stage.of_alarm (stage : Stage row client.link) {timer : Timer} (set : timer ∈ client.alarms) :
    ∃ attempts started, row.length = attempts + 1 ∧
      client.channel = ⟨attempts, false, started, [], none, some timer.number⟩ ∧
        client.status = .disconnected ∧ client.alarms = [timer] := by
  cases stage with
  | trying n channel status alarms =>
    rw [link_alarms] at alarms
    simp [alarms] at set
  | online n empty channel status alarms =>
    rw [link_alarms] at alarms
    simp [alarms] at set
  | waiting attempts started number delay length channel status alarms =>
    have alarms : client.alarms = [⟨number, delay, .reconnect⟩] := alarms
    obtain rfl : timer = ⟨number, delay, .reconnect⟩ := by simpa [alarms] using set
    exact ⟨attempts, started, length, channel, status, alarms⟩
  | failed started spent channel status alarms =>
    rw [link_alarms] at alarms
    simp [alarms] at set
  | ended attempts started channel status alarms =>
    rw [link_alarms] at alarms
    simp [alarms] at set

theorem steady_signal (signal : Signal) : Steady signal.action := by
  cases signal with
  | opened attempt => exact steady_opened attempt
  | refused attempt => exact steady_refused attempt
  | dropped attempt => exact steady_closed attempt
  | frame attempt text => exact steady_received attempt text
  | closing => exact steady_close
  | fired number =>
    refine steady_get.bind fun client => ?_
    split
    · exact steady_fire _
    · exact steady_pure ()

theorem Running.ticks (running : Running settings row client) (signal : Signal) :
    (signal.after client).Ticking := steady_signal signal client running.ticking

theorem Running.next_opened (running : Running settings row client) (attempt : Nat) :
    Next settings row client (.opened attempt) := by
  have unbroken : ¬Signal.Breaks client (.opened attempt) := id
  by_cases connecting : phase? client attempt = some .connecting
  · obtain ⟨channel, status, alarms⟩ := running.stage.of_connecting connecting
    have link := link_opened client connecting (by rw [channel])
    have channel' : (Signal.after (.opened attempt) client).channel =
        ⟨0, false, attempt + 1, [(attempt, .opened)], some attempt, none⟩ := by
      refine (congrArg Link.channel link).trans ?_
      simp [channel, Table.put]
    have alarms' : (Signal.after (.opened attempt) client).alarms = [] :=
      (congrArg Link.alarms link).trans alarms
    have empty : nextRow row client (Signal.after (.opened attempt) client) = [] := by
      simp [nextRow, channel, channel']
    refine ⟨?_, ?_, fun breaks => absurd breaks unbroken, fun breaks => absurd breaks unbroken⟩
    · rw [empty]
      refine ⟨(congrArg Link.settings link).trans running.configured, running.ticks _, ⟨?_, ?_⟩, ?_⟩
      · intro i delay here
        cases here
      · intro i less
        cases less
      · exact .online attempt rfl channel' (congrArg Link.status link) alarms'
    · rintro (ended | error)
      · rw [channel] at ended
        cases ended
      · rw [status] at error
        cases error
  · have same : Signal.after (.opened attempt) client = client := after_opened_rest client connecting
    exact running.next_rest unbroken (by rw [same]) (running.ticks _)

theorem Running.next_refused (running : Running settings row client) (timely : TimelyAt settings row.length)
    (attempt : Nat) : Next settings row client (.refused attempt) := by
  by_cases connecting : phase? client attempt = some .connecting
  · obtain ⟨channel, status, alarms⟩ := running.stage.of_connecting connecting
    have idle : (client.after (endPhase attempt)).channel = idleChannel row.length (attempt + 1) false := by
      simp [endPhase, channel, idleChannel, Table.drop]
    exact running.next_broken (by rw [channel]) (by simp [status]) (after_refused client connecting) rfl rfl
      (running.ticks _) idle alarms timely
  · have same : Signal.after (.refused attempt) client = client := after_refused_rest client connecting
    exact running.next_rest connecting (by rw [same]) (running.ticks _)

/-- The socket of an attempt is left. -/
theorem Running.next_left (running : Running settings row client) (timely : TimelyAt settings row.length)
    {attempt : Nat} (opened : phase? client attempt = some .opened)
    (leaves : signal.after client = client.after (closed attempt)) : Next settings row client signal := by
  obtain ⟨empty, channel, status, alarms⟩ := running.stage.of_opened opened
  have open' : client.channel.ended = false := by rw [channel]
  have idle : (client.dropped attempt).channel = idleChannel row.length (attempt + 1) false := by
    simp [dropped, channel, idleChannel, Table.drop, empty]
  exact running.next_broken open' (by simp [status]) (leaves.trans (after_closed client opened open')) rfl rfl
    (running.ticks _) idle alarms timely

theorem Running.next_dropped (running : Running settings row client) (timely : TimelyAt settings row.length)
    (attempt : Nat) : Next settings row client (.dropped attempt) := by
  by_cases opened : phase? client attempt = some .opened
  · exact running.next_left timely opened rfl
  · have same : Signal.after (.dropped attempt) client = client := after_closed_rest client opened
    exact running.next_rest opened (by rw [same]) (running.ticks _)

theorem Running.next_frame (running : Running settings row client) (timely : TimelyAt settings row.length)
    (attempt : Nat) (text : String) : Next settings row client (.frame attempt text) := by
  by_cases opened : phase? client attempt = some .opened
  · cases read : readFrame text with
    | error fault =>
      refine running.next_left timely opened ?_
      simp [Signal.after, Signal.action, received, opened, takeFrame, read]
    | ok told =>
      -- The client has an answer to the frame, so it stays.
      have answered : client.said (takeFrame text) = .ok () := by
        cases told with
        | none => simp [takeFrame, read]
        | some told => simp [takeFrame, read, said]; rfl
      have same : Signal.after (.frame attempt text) client = client.after (takeFrame text) := by
        simp [Signal.after, Signal.action, received, opened, answered]
      refine running.next_rest ?_ ?_ (running.ticks _)
      · rintro ⟨-, fault, error⟩
        rw [read] at error
        cases error
      · rw [same]
        exact (aside_takeFrame text client).link
  · have same : Signal.after (.frame attempt text) client = client := by
      simp [Signal.after, Signal.action, received, opened]
    exact running.next_rest (fun breaks => opened breaks.1) (by rw [same]) (running.ticks _)

/-- A timer that is not the one of a reconnect has another number. -/
theorem Running.alarms_cancel (running : Running settings row client) {timer : Timer} (set : timer ∈ client.timers)
    (other : timer.task ≠ .reconnect) : (client.after (cancel timer.number)).link = client.link := by
  have alarms : (client.after (cancel timer.number)).alarms = client.alarms := by
    rw [Client.alarms_cancel]
    refine List.filter_eq_self.mpr fun alarm member => ?_
    obtain ⟨set', task⟩ := List.mem_filter.mp member
    have apart : alarm ≠ timer := by
      rintro rfl
      exact other (by simpa using task)
    have symmetric : Std.Symm fun first second : Timer => first.number ≠ second.number := ⟨fun _ _ ne => ne.symm⟩
    have numbers : alarm.number ≠ timer.number := running.ticking.distinct.forall set' set apart
    simpa using numbers
  unfold link
  rw [alarms]
  rfl

/-- The timer of a reconnect fires, and the client tries to connect once more. -/
theorem Running.after_alarm (running : Running settings row client) {timer : Timer} (alarm : timer ∈ client.alarms) :
    ∃ started, (Signal.after (.fired timer.number) client).link = { client.link with
      channel := ⟨row.length, false, started + 1, [(started, .connecting)], none, none⟩
      status := .connecting, alarms := [] } ∧ putOff client (Signal.after (.fired timer.number) client) = [] := by
  obtain ⟨attempts, started, length, channel, status, alarms⟩ := running.stage.of_alarm alarm
  obtain ⟨set, reconnects⟩ := List.mem_filter.mp alarm
  have found : client.timers.find? (fun other => other.number = timer.number) = some timer := by
    cases found : client.timers.find? fun other => other.number = timer.number with
    | none => simpa using List.find?_eq_none.mp found timer set
    | some other =>
      have number : other.number = timer.number := by simpa using List.find?_some found
      have symmetric : Std.Symm fun first second : Timer => first.number ≠ second.number :=
        ⟨fun _ _ ne => ne.symm⟩
      by_contra apart
      have apart : other ≠ timer := fun same => apart (congrArg some same)
      exact running.ticking.distinct.forall (List.mem_of_find?_eq_some found) set apart number
  have fires : Signal.after (.fired timer.number) client =
      (client.after (cancel timer.number)).after reconnect := by
    have task : timer.task = .reconnect := by simpa using reconnects
    simp [Signal.after, Signal.action, found, fire, task, runTask]
  have open' : client.channel.ended = false := by rw [channel]
  have link : (Signal.after (.fired timer.number) client).link = { client.link with
      channel := ⟨row.length, false, started + 1, [(started, .connecting)], none, none⟩
      status := .connecting, alarms := [] } := by
    rw [fires, link_reconnect (client.after (cancel timer.number)) open']
    unfold Client.link
    rw [Client.alarms_cancel, alarms]
    simp [cancel, channel, Table.put, length]
  have quiet : (Signal.after (.fired timer.number) client).alarms = [] := congrArg Link.alarms link
  exact ⟨started, link, putOff_old running.ticking (by simp [quiet])⟩

theorem Running.next_alarm (running : Running settings row client) {timer : Timer} (alarm : timer ∈ client.alarms) :
    Next settings row client (.fired timer.number) := by
  have unbroken : ¬Signal.Breaks client (.fired timer.number) := id
  obtain ⟨_, _, _, channel, status, _⟩ := running.stage.of_alarm alarm
  obtain ⟨started, link, nothing⟩ := running.after_alarm alarm
  have channel' : (Signal.after (.fired timer.number) client).channel =
      ⟨row.length, false, started + 1, [(started, .connecting)], none, none⟩ := congrArg Link.channel link
  have alarms' : (Signal.after (.fired timer.number) client).alarms = [] := congrArg Link.alarms link
  have stays : nextRow row client (Signal.after (.fired timer.number) client) = row := by
    simp [nextRow, channel', nothing]
  refine ⟨?_, ?_, fun breaks => absurd breaks unbroken, fun breaks => absurd breaks unbroken⟩
  · rw [stays]
    refine ⟨(congrArg Link.settings link).trans running.configured, running.ticks _, running.paced, ?_⟩
    exact .trying started channel' (congrArg Link.status link) alarms'
  · rintro (ended | error)
    · rw [channel] at ended
      cases ended
    · rw [status] at error
      cases error

theorem Running.next_fired (running : Running settings row client) (number : Nat) :
    Next settings row client (.fired number) := by
  have unbroken : ¬Signal.Breaks client (.fired number) := id
  cases found : client.timers.find? fun timer => timer.number = number with
  | none =>
    have same : Signal.after (.fired number) client = client := by
      simp [Signal.after, Signal.action, found]
    exact running.next_rest unbroken (by rw [same]) (running.ticks _)
  | some timer =>
    have set : timer ∈ client.timers := List.mem_of_find?_eq_some found
    by_cases reconnects : timer.task = .reconnect
    · have number_eq : timer.number = number := by simpa using List.find?_some found
      exact number_eq ▸ running.next_alarm (List.mem_filter.mpr ⟨set, by simpa using reconnects⟩)
    · have fires : Signal.after (.fired number) client =
          (client.after (cancel timer.number)).after (runTask timer.task) := by
        simp [Signal.after, Signal.action, found, fire]
      refine running.next_rest unbroken ?_ (running.ticks _)
      rw [fires, (aside_runTask reconnects _).link]
      exact running.alarms_cancel set reconnects

/-- When nothing is under way, there is nothing to give up. -/
theorem link_close_idle {attempts started : Nat} {ended : Bool} {reconnect : Option Nat}
    (channel : client.channel = { idleChannel attempts started ended with reconnect }) :
    (client.after close).link = { client.link with
      channel := idleChannel attempts started true, status := .disconnected, alarms := client.unset } := by
  have calm := link_ending_calmed client
  rw [channel] at calm
  have channel' : client.ending.calmed.channel = idleChannel attempts started true := congrArg Link.channel calm
  have idle : ∀ attempt, phase? client.ending.calmed attempt ≠ some .connecting := by
    simp [phase?, channel', idleChannel]
  have socket : client.ending.calmed.channel.socket = none := by rw [channel']; rfl
  rw [after_close, link_setStatus, socket]
  simp only [after_giveUp_idle _ idle]
  rw [calm]
  rfl

theorem link_close_trying {attempts n : Nat}
    (channel : client.channel = ⟨attempts, false, n + 1, [(n, .connecting)], none, none⟩) :
    (client.after close).link = { client.link with
      channel := idleChannel attempts (n + 1) true, status := .disconnected, alarms := client.unset } := by
  have calm := link_ending_calmed client
  rw [channel] at calm
  have channel' : client.ending.calmed.channel = ⟨attempts, true, n + 1, [(n, .connecting)], none, none⟩ :=
    congrArg Link.channel calm
  have connecting : phase? client.ending.calmed n = some .connecting := by
    simp [phase?, channel', Table.get?]
  have socket : client.ending.calmed.channel.socket = none := by rw [channel']
  rw [after_close, link_setStatus, socket]
  simp only
  rw [link_giveUp _ (by rw [channel']) connecting, calm, channel']
  simp [idleChannel, Table.drop]

theorem link_close_online {attempts n : Nat}
    (channel : client.channel = ⟨attempts, false, n + 1, [(n, .opened)], some n, none⟩) :
    (client.after close).link = { client.link with
      channel := idleChannel attempts (n + 1) true, status := .disconnected, alarms := client.unset } := by
  have calm := link_ending_calmed client
  rw [channel] at calm
  have channel' : client.ending.calmed.channel = ⟨attempts, true, n + 1, [(n, .opened)], some n, none⟩ :=
    congrArg Link.channel calm
  have asked : (client.ending.calmed.after (emit (.close n))).link = client.ending.calmed.link :=
    (aside_emit _ _).link
  have channel'' : (client.ending.calmed.after (emit (.close n))).channel =
      ⟨attempts, true, n + 1, [(n, .opened)], some n, none⟩ := channel'
  have opened : phase? (client.ending.calmed.after (emit (.close n))) n = some .opened := by
    simp [phase?, channel'', Table.get?]
  have socket : client.ending.calmed.channel.socket = some n := by rw [channel']
  rw [after_close, link_setStatus, socket]
  simp only [after_bind]
  rw [link_closed_ended _ opened (by rw [channel'']), asked, calm, channel'']
  simp [idleChannel, Table.drop]

/-- Nothing is left to wait for when the client was closed. -/
theorem Stage.closed (stage : Stage row client.link) : ∃ attempts, (client.after close).link = { client.link with
    channel := idleChannel attempts client.channel.started true, status := .disconnected, alarms := [] } := by
  cases stage with
  | trying n channel status alarms =>
    rw [link_channel] at channel
    rw [link_alarms] at alarms
    refine ⟨row.length, (link_close_trying channel).trans ?_⟩
    simp [channel, unset, alarms]
  | online n empty channel status alarms =>
    rw [link_channel] at channel
    rw [link_alarms] at alarms
    refine ⟨0, (link_close_online channel).trans ?_⟩
    simp [channel, unset, alarms]
  | waiting attempts started number delay length channel status alarms =>
    rw [link_channel] at channel
    rw [link_alarms] at alarms
    refine ⟨attempts, (link_close_idle (channel.trans rfl)).trans ?_⟩
    simp [channel, unset, alarms]
  | failed started spent channel status alarms =>
    rw [link_channel] at channel
    rw [link_alarms] at alarms
    refine ⟨row.length, (link_close_idle (channel.trans rfl)).trans ?_⟩
    simp [channel, idleChannel, unset, alarms]
  | ended attempts started channel status alarms =>
    rw [link_channel] at channel
    rw [link_alarms] at alarms
    refine ⟨attempts, (link_close_idle (channel.trans rfl)).trans ?_⟩
    simp [channel, idleChannel, unset, alarms]

theorem Running.next_closing (running : Running settings row client) : Next settings row client .closing := by
  have unbroken : ¬Signal.Breaks client .closing := id
  obtain ⟨attempts, link⟩ := running.stage.closed
  have channel' : (Signal.after .closing client).channel = idleChannel attempts client.channel.started true :=
    congrArg Link.channel link
  have alarms' : (Signal.after .closing client).alarms = [] := congrArg Link.alarms link
  have nothing : putOff client (Signal.after .closing client) = [] :=
    putOff_old running.ticking (by simp [alarms'])
  have stays : nextRow row client (Signal.after .closing client) = row := by
    simp [nextRow, channel', idleChannel, nothing]
  refine ⟨?_, ?_, fun breaks => absurd breaks unbroken, fun breaks => absurd breaks unbroken⟩
  · rw [stays]
    refine ⟨(congrArg Link.settings link).trans running.configured, running.ticks _, running.paced, ?_⟩
    exact .ended attempts _ channel' (congrArg Link.status link) alarms'
  · refine fun _ => ⟨?_, nothing, fun other => absurd rfl other⟩
    rw [channel']
    rfl

/-- What every signal does in the middle of a run. -/
theorem Running.next (running : Running settings row client) (timely : TimelyAt settings row.length)
    (signal : Signal) : Next settings row client signal := by
  cases signal with
  | opened attempt => exact running.next_opened attempt
  | refused attempt => exact running.next_refused timely attempt
  | dropped attempt => exact running.next_dropped timely attempt
  | frame attempt text => exact running.next_frame timely attempt text
  | fired number => exact running.next_fired number
  | closing => exact running.next_closing

end steps

/-! ### Runs -/

section runs

variable {settings : Settings} {row : List Amount} {client : Client}

theorem Running.protocol (running : Running settings row client) (timely : Timely settings)
    (signals : List Signal) : Protocol row client signals := by
  induction signals generalizing row client with
  | nil => exact running.poised fun i _ => timely i
  | cons signal rest ih =>
    have next := running.next (timely row.length) signal
    exact ⟨running.poised fun i _ => timely i, next.proceeds, ih next.running⟩

/-- The client connects for the first time. -/
theorem Fresh.first (fresh : Fresh client) : (client.after connect).link = { client.link with
    channel := ⟨0, false, 1, [(0, .connecting)], none, none⟩, status := .connecting } := by
  rw [link_connect client (by rw [fresh.channel]), fresh.channel]
  rfl

theorem Fresh.running (fresh : Fresh client) : Running client.settings [] (client.after connect) := by
  have link := fresh.first
  refine ⟨congrArg Link.settings link, steady_connect client fresh.ticking, ⟨?_, ?_⟩, ?_⟩
  · intro i delay here
    cases here
  · intro i less
    cases less
  · exact .trying 0 (congrArg Link.channel link) (congrArg Link.status link)
      ((congrArg Link.alarms link).trans fresh.quiet)

/-- What is left after some signals, with the reconnects that were put off in a row. -/
def states : List Amount × Client → List Signal → List Amount × Client
  | state, [] => state
  | (row, client), signal :: rest => states (nextRow row client (signal.after client), signal.after client) rest

theorem Protocol.append {first second : List Signal} (protocol : Protocol row client (first ++ second)) :
    Protocol (states (row, client) first).1 (states (row, client) first).2 second := by
  induction first generalizing row client with
  | nil => exact protocol
  | cons signal rest ih => exact ih protocol.2.2

theorem states_append (state : List Amount × Client) (first second : List Signal) :
    states state (first ++ second) = states (states state first) second := by
  induction first generalizing state with
  | nil => rfl
  | cons signal rest ih => exact ih _

/-- The attempt is under way that was made after all reconnects of the row. -/
def Retrying (row : List Amount) (client : Client) : Prop :=
  ∃ n, client.channel = ⟨row.length, false, n + 1, [(n, .connecting)], none, none⟩ ∧ client.alarms = []

/-- What a refusal leads to, if there may be one more reconnect. -/
theorem Running.after_refused (running : Running settings row client) {n : Nat}
    (channel : client.channel = ⟨row.length, false, n + 1, [(n, .connecting)], none, none⟩)
    (quiet : client.alarms = []) (left : allows settings row.length = true) :
    let after := Signal.after (.refused n) client
    after.settings = settings ∧ after.channel.socket = none ∧ after.alarms =
      match (reconnectDelay? settings row.length).filter Amount.hasFloat with
      | some delay => [⟨client.timersSet, delay, .reconnect⟩]
      | none => [] := by
  have connecting : phase? client n = some .connecting := by simp [phase?, channel, Table.get?]
  have attempts : (client.after (endPhase n)).channel.attempts = row.length := by simp [endPhase, channel]
  have configured : (client.after (endPhase n)).settings = settings := running.configured
  have link := link_retry (client.after (endPhase n)) (some "Failed to create connection")
    (by rw [attempts, configured]; exact left)
  rw [attempts, configured, ← Client.after_refused client connecting] at link
  have socket : (client.after (endPhase n)).channel.socket = none := by simp [endPhase, channel]
  have quiet : (client.after (endPhase n)).alarms = [] := quiet
  cases computed : (reconnectDelay? settings row.length).filter Amount.hasFloat with
  | none =>
    rw [computed] at link
    exact ⟨(congrArg Link.settings link).trans configured,
      (congrArg (fun l => l.channel.socket) link).trans socket, (congrArg Link.alarms link).trans quiet⟩
  | some delay =>
    rw [computed] at link
    refine ⟨(congrArg Link.settings link).trans configured,
      (congrArg (fun l => l.channel.socket) link).trans socket, (congrArg Link.alarms link).trans ?_⟩
    simp only [quiet, List.nil_append]
    rfl

/-- A client whose attempts are all refused comes to any number of reconnects in a row that is allowed. -/
theorem Fresh.retries (fresh : Fresh client) {count : Nat} (allowed : allows client.settings count = true)
    (timely : ∀ i < count, TimelyAt client.settings i) : ∃ signals,
      let state := states ([], client.after connect) signals
      state.1.length = count ∧ Running client.settings state.1 state.2 ∧ Retrying state.1 state.2 := by
  induction count with
  | zero =>
    exact ⟨[], rfl, fresh.running, 0, congrArg Link.channel fresh.first,
      (congrArg Link.alarms fresh.first).trans fresh.quiet⟩
  | succ count ih =>
    have before := allows_of_le (Nat.le_succ count) allowed
    obtain ⟨signals, length, running, n, channel, quiet⟩ := ih before fun i less => timely i (Nat.lt_succ_of_lt less)
    subst length
    have timely' := timely _ (Nat.lt_succ_self _)
    obtain ⟨delay, -, computed, tellable, -⟩ := timely' before
    -- The attempt is refused, and then the timer of the next one fires.
    obtain ⟨-, socket, alarms⟩ := running.after_refused channel quiet before
    simp only [computed, Option.filter_some, tellable, if_true] at alarms
    have refused := (running.next timely' (.refused n)).running
    have row' : nextRow (states ([], client.after connect) signals).1 (states ([], client.after connect) signals).2
        (Signal.after (.refused n) (states ([], client.after connect) signals).2) =
          (states ([], client.after connect) signals).1 ++ [delay] := by
      simp [nextRow, socket, putOff_new alarms]
    rw [row'] at refused
    obtain ⟨started, link, nothing⟩ := refused.after_alarm (alarms ▸ List.mem_singleton_self _)
    have fired := (refused.next_alarm (alarms ▸ List.mem_singleton_self _)).running
    refine ⟨signals ++ [.refused n, .fired (states ([], client.after connect) signals).2.timersSet], ?_⟩
    rw [states_append]
    simp only [states, row']
    have stays : ∀ row', nextRow row' (Signal.after (.refused n) (states ([], client.after connect) signals).2)
        (Signal.after (.fired (states ([], client.after connect) signals).2.timersSet)
          (Signal.after (.refused n) (states ([], client.after connect) signals).2)) = row' := by
      intro row'
      have socket' := congrArg (fun l => l.channel.socket) link
      simp only [link_channel] at socket'
      simp [nextRow, socket', nothing]
    rw [stays] at fired ⊢
    exact ⟨by simp, fired, started, congrArg Link.channel link, congrArg Link.alarms link⟩

/-- A client that connects as it should in all runs computes and tells each delay, one after the other. -/
theorem Fresh.timely (fresh : Fresh client)
    (protocol : ∀ signals, Protocol [] (client.after connect) signals) : Timely client.settings := by
  intro count
  induction count using Nat.strong_induction_on with
  | _ count ih =>
    intro allowed
    obtain ⟨signals, length, running, n, channel, quiet⟩ := fresh.retries allowed ih
    subst length
    obtain ⟨-, proceeds, poised⟩ := (protocol (signals ++ [.refused n])).append
    generalize states ([], client.after connect) signals = state at *
    have open' : state.2.channel.ended = false := by rw [channel]
    have breaks : Signal.Breaks state.2 (.refused n) := by
      simp [Signal.Breaks, phase?, channel, Table.get?]
    obtain ⟨delay, new⟩ := proceeds.retried breaks open' (by rw [running.configured]; exact allowed)
    obtain ⟨configured, socket, alarms⟩ := running.after_refused channel quiet allowed
    have row' : nextRow state.1 state.2 (Signal.after (.refused n) state.2) = state.1 ++ [delay] := by
      simp [nextRow, socket, new]
    rw [row'] at poised
    obtain ⟨exact, known, value⟩ := poised.paced state.1.length delay List.getElem?_concat_length
    rw [configured] at known
    cases computed : (reconnectDelay? client.settings state.1.length).filter Amount.hasFloat with
    | none =>
      rw [computed] at alarms
      rw [putOff_old running.ticking (by simp [alarms])] at new
      cases new
    | some delay' =>
      rw [computed] at alarms
      have same : delay' = delay := by simpa [putOff_new alarms] using new
      subst same
      obtain ⟨computed, tellable⟩ := Option.filter_eq_some_iff.mp computed
      exact ⟨_, exact, computed, tellable, known, value⟩

/-- A client connects as it should in all runs just if all delays it may come to can be computed and told, and are
exact. -/
theorem protocol_iff (fresh : Fresh client) :
    (∀ signals, Protocol [] (client.after connect) signals) ↔ Timely client.settings :=
  ⟨fresh.timely, fun timely signals => fresh.running.protocol timely signals⟩

/-- A client that has not done anything yet. -/
theorem fresh_new (settings : Settings) : Fresh { settings } where
  channel := rfl
  quiet := rfl
  ticking := ⟨.nil, by simp⟩

theorem protocol_default : Fresh {} ∧ ∀ signals, Protocol [] (({} : Client).after connect) signals :=
  ⟨fresh_new {}, (protocol_iff (fresh_new {})).mpr timely_default⟩

/-- A client that may reconnect thousands of times in a row does not put all these reconnects off. -/
theorem reconnect_lost :
    ¬∀ signals, Protocol [] (({ settings := patient } : Client).after connect) signals :=
  fun protocol => not_timely_patient ((fresh_new patient).timely protocol)

end runs

end Retouch.Client
