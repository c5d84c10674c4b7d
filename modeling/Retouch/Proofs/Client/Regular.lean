import Retouch.Proofs.Client.Reconnect
import Retouch.Proofs.Client.Relay

/-!
# What a client has under way

A client that connects only when it is started and by its timers of reconnects has one thing under way at a time: an
attempt, an open socket, or a reconnect that was put off. This holds whatever else happens to it, for it begins a new
attempt only when nothing is under way.

## Main statements

* `Sole`: what a client can have under way.
* `Regular.occurrence`: whatever happens keeps it that way.
-/
namespace Retouch.Client

/-! ### What is under way -/

/-- The connection has one thing under way at most: a reconnect that was put off, an attempt, or an open socket. -/
inductive Sole (link : Link) : Prop where
  | idle (phases : link.channel.phases = []) (socket : link.channel.socket = none) (alarms : link.alarms.length ≤ 1)
  | trying (n : Nat) (phases : link.channel.phases = [(n, .connecting)]) (last : link.channel.started = n + 1)
      (socket : link.channel.socket = none) (alarms : link.alarms = [])
  | online (n : Nat) (phases : link.channel.phases = [(n, .opened)]) (last : link.channel.started = n + 1)
      (socket : link.channel.socket = some n) (alarms : link.alarms = [])

/-- What holds of a client at all times. -/
structure Regular (client : Client) : Prop where
  sole : Sole client.link
  /-- A client that does not follow the page was not started, or was closed. -/
  dormant : client.listening = false → client.channel.ended = false →
    client.channel.phases = [] ∧ client.channel.socket = none ∧ client.alarms = []

namespace Sole

variable {link other : Link}

/-- Nothing is under way at all. -/
theorem quiet (phases : link.channel.phases = []) (socket : link.channel.socket = none) (alarms : link.alarms = []) :
    Sole link := .idle phases socket (by simp [alarms])

/-- Nothing changes but that reconnects may be given up. -/
theorem narrow (sole : Sole link) (phases : other.channel.phases = link.channel.phases)
    (started : other.channel.started = link.channel.started) (socket : other.channel.socket = link.channel.socket)
    (alarms : other.alarms.Sublist link.alarms) : Sole other := by
  cases sole with
  | idle empty unused few => exact .idle (phases.trans empty) (socket.trans unused) (alarms.length_le.trans few)
  | trying n under last unused quiet =>
    exact .trying n (phases.trans under) (started.trans last) (socket.trans unused)
      (List.sublist_nil.mp (quiet ▸ alarms))
  | online n under last used quiet =>
    exact .online n (phases.trans under) (started.trans last) (socket.trans used)
      (List.sublist_nil.mp (quiet ▸ alarms))

end Sole

section actions

variable {client : Client}

theorem sole_relayed {after : Client} (sole : Sole client.link) (relayed : Relayed client after) : Sole after.link :=
  sole.narrow (congrArg Channel.phases relayed.channel) (congrArg Channel.started relayed.channel)
    (congrArg Channel.socket relayed.channel) relayed.alarms

/-- When nothing is under way, the client may connect. -/
theorem sole_connect (phases : client.channel.phases = []) (socket : client.channel.socket = none)
    (alarms : client.alarms = []) : Sole (client.after connect).link := by
  cases ended : client.channel.ended with
  | true =>
    have same : client.after connect = client := by simp [connect, ended]
    rw [same]
    exact .quiet phases socket alarms
  | false =>
    rw [link_connect client ended]
    refine .trying client.channel.started ?_ rfl socket alarms
    simp [phases, Table.put]

/-- A reconnect is put off when nothing else is under way. -/
theorem sole_retry (reason : Option String) (phases : client.channel.phases = [])
    (socket : client.channel.socket = none) (alarms : client.alarms = []) :
    Sole (client.after (retry reason)).link := by
  cases left : (Number.Amount.whole client.channel.attempts).below client.settings.maxAttempts with
  | false =>
    rw [link_retry_spent client reason left]
    exact .quiet phases socket alarms
  | true =>
    rw [link_retry client reason left]
    split
    · exact .idle phases socket (by simp [alarms])
    · exact .quiet phases socket alarms

theorem Sole.of_connecting (sole : Sole client.link) {attempt : Nat}
    (connecting : phase? client attempt = some .connecting) : client.channel.phases = [(attempt, .connecting)] ∧
      client.channel.started = attempt + 1 ∧ client.channel.socket = none ∧ client.alarms = [] := by
  unfold phase? at connecting
  cases sole with
  | idle phases =>
    rw [link_channel] at phases
    simp [phases] at connecting
  | trying n phases last socket alarms =>
    rw [link_channel] at phases
    obtain rfl : n = attempt := by
      by_contra other
      simp [phases, Table.get?, other] at connecting
    exact ⟨phases, last, socket, alarms⟩
  | online n phases =>
    rw [link_channel] at phases
    by_cases same : n = attempt <;> simp [phases, Table.get?, same] at connecting

theorem Sole.of_opened (sole : Sole client.link) {attempt : Nat} (opened : phase? client attempt = some .opened) :
    client.channel.phases = [(attempt, .opened)] ∧ client.channel.started = attempt + 1 ∧
      client.channel.socket = some attempt ∧ client.alarms = [] := by
  unfold phase? at opened
  cases sole with
  | idle phases =>
    rw [link_channel] at phases
    simp [phases] at opened
  | trying n phases =>
    rw [link_channel] at phases
    by_cases same : n = attempt <;> simp [phases, Table.get?, same] at opened
  | online n phases last socket alarms =>
    rw [link_channel] at phases
    obtain rfl : n = attempt := by
      by_contra other
      simp [phases, Table.get?, other] at opened
    exact ⟨phases, last, socket, alarms⟩

/-- The socket in use is the open one. -/
theorem Sole.opened_of_socket (sole : Sole client.link) {attempt : Nat}
    (used : client.channel.socket = some attempt) : phase? client attempt = some .opened := by
  cases sole with
  | idle _ socket => cases used.symm.trans socket
  | trying _ _ _ socket => cases used.symm.trans socket
  | online n phases last socket =>
    obtain rfl := Option.some.inj (socket.symm.trans used)
    rw [link_channel] at phases
    simp [phase?, phases, Table.get?]

theorem sole_opened (sole : Sole client.link) (attempt : Nat) : Sole (client.after (opened attempt)).link := by
  by_cases connecting : phase? client attempt = some .connecting
  · obtain ⟨phases, last, socket, alarms⟩ := sole.of_connecting connecting
    cases ended : client.channel.ended with
    | true =>
      -- The client was closed while it connected, so it closes the socket at once.
      have left : client.after (opened attempt) = (client.after (endPhase attempt)).after (emit (.close attempt)) := by
        simp [opened, connecting, ended]
      rw [left]
      refine .quiet ?_ socket alarms
      simp [emit, endPhase, phases, Table.drop]
    | false =>
      rw [link_opened client connecting ended]
      refine .online attempt ?_ last rfl alarms
      simp [phases, Table.put]
  · rw [after_opened_rest client connecting]
    exact sole

theorem sole_refused (sole : Sole client.link) (attempt : Nat) : Sole (client.after (refused attempt)).link := by
  by_cases connecting : phase? client attempt = some .connecting
  · obtain ⟨phases, -, socket, alarms⟩ := sole.of_connecting connecting
    rw [after_refused client connecting]
    refine sole_retry _ ?_ socket alarms
    simp [endPhase, phases, Table.drop]
  · rw [after_refused_rest client connecting]
    exact sole

theorem sole_closed (sole : Sole client.link) (attempt : Nat) : Sole (client.after (closed attempt)).link := by
  by_cases opened : phase? client attempt = some .opened
  · obtain ⟨phases, -, -, alarms⟩ := sole.of_opened opened
    have empty : client.channel.phases.drop attempt = [] := by simp [phases, Table.drop]
    cases ended : client.channel.ended with
    | true =>
      rw [link_closed_ended client opened ended]
      exact .quiet empty rfl alarms
    | false =>
      rw [after_closed client opened ended]
      exact sole_retry none empty rfl alarms
  · rw [after_closed_rest client opened]
    exact sole

theorem sole_received (sole : Sole client.link) (attempt : Nat) (frame : String) :
    Sole (client.after (received attempt frame)).link := by
  simp only [received, after_bind, after_get, said_get]
  -- Only the socket that is open is listened to, and a frame that cannot be handled closes it.
  split
  · have taken := sole_relayed sole (relayed_takeFrame frame client)
    rw [after_bind]
    split
    · exact sole_closed taken attempt
    · exact taken
  · exact sole

theorem sole_giveUp (sole : Sole client.link) : Sole (client.after giveUp).link := by
  by_cases idle : ∀ attempt, phase? client attempt ≠ some .connecting
  · rw [after_giveUp_idle client idle]
    exact sole
  · push Not at idle
    obtain ⟨attempt, connecting⟩ := idle
    obtain ⟨phases, last, socket, alarms⟩ := sole.of_connecting connecting
    rw [link_giveUp client last connecting]
    refine .quiet ?_ socket alarms
    simp [phases, Table.drop]

/-- What the client gives up when it is told to connect no more. -/
theorem sole_calmed (sole : Sole client.link) : Sole client.ending.calmed.link := by
  rw [link_ending_calmed]
  refine sole.narrow rfl rfl rfl ?_
  unfold unset
  dsimp only [link_alarms]
  split
  · exact List.filter_sublist
  · exact .refl _

theorem sole_close (sole : Sole client.link) : Sole (client.after close).link := by
  rw [after_close]
  refine sole_relayed ?_ (relayed_setStatus _ _ _)
  have calm := sole_calmed sole
  split
  · rw [after_bind]
    refine sole_closed ?_ _
    have asked (attempt : Nat) : (client.ending.calmed.after (emit (.close attempt))).link =
        client.ending.calmed.link := (aside_emit _ _).link
    rw [asked]
    exact calm
  · exact sole_giveUp calm

/-- The timer of a reconnect fires, which was the only thing under way. -/
theorem sole_reconnect (sole : Sole client.link) {timer : Timer} (alarm : timer ∈ client.alarms) :
    client.channel.phases = [] ∧ Sole (client.after (fire timer)).link := by
  cases sole with
  | trying n phases last socket alarms =>
    rw [link_alarms] at alarms
    simp [alarms] at alarm
  | online n phases last socket alarms =>
    rw [link_alarms] at alarms
    simp [alarms] at alarm
  | idle phases socket few =>
    refine ⟨phases, ?_⟩
    have task : timer.task = .reconnect := by simpa using (List.mem_filter.mp alarm).2
    have only : client.alarms = [timer] := by
      rw [link_alarms] at few
      obtain ⟨other, alarms⟩ := List.length_eq_one_iff.mp
        (Nat.le_antisymm few (List.length_pos_of_mem alarm))
      obtain rfl : timer = other := by simpa [alarms] using alarm
      exact alarms
    have quiet : (client.after (cancel timer.number)).alarms = [] := by
      rw [alarms_cancel, only]
      simp
    unfold fire
    rw [after_bind, task]
    unfold runTask reconnect
    rw [after_bind, after_discard]
    exact sole_connect phases socket quiet

end actions

/-! ### Whatever happens -/

theorem conducted_calmed (client : Client) : Conducted client client.ending.calmed := by
  have ending : Conducted client client.ending := conducted_ending client
  unfold calmed
  split
  · rename_i number _
    refine ending.trans ((conducted_cancel number client.ending).trans ?_)
    exact conducted_calm (f := fun channel => { channel with reconnect := none }) (fun _ => rfl) _
  · exact ending

theorem ended_calmed (client : Client) : client.ending.calmed.channel.ended = true :=
  congrArg (fun link => link.channel.ended) (link_ending_calmed client)

theorem ended_close (client : Client) : (client.after close).channel.ended = true := by
  rw [after_close]
  refine (conducted_setStatus _ _ _).ended ?_
  split
  · exact (conducted_bind (conducted_emit rfl) (fun _ => conducted_closed _) _).ended client.ended_calmed
  · exact (conducted_giveUp _).ended client.ended_calmed

/-- What happens to a client that is only connected by itself. -/
def Occurrence.Own : Occurrence → Prop
  | .connect => False
  | _ => True

section occurrences

variable {behaviors : Behaviors} {client : Client}

/-- Nothing that the network tells matters to a client with nothing under way. -/
theorem idle_network (phases : client.channel.phases = []) (attempt : Nat) :
    client.after (opened attempt) = client ∧ client.after (refused attempt) = client ∧
      client.after (closed attempt) = client ∧ ∀ frame, client.after (received attempt frame) = client := by
  have none (phase : Phase) : phase? client attempt ≠ some phase := by simp [phase?, phases]
  refine ⟨after_opened_rest client (none _), after_refused_rest client (none _), after_closed_rest client (none _), ?_⟩
  simp [received, none]

namespace Regular

theorem relayed (regular : Regular client) {after : Client} (relayed : Relayed client after) : Regular after where
  sole := sole_relayed regular.sole relayed
  dormant deaf open' := by
    obtain ⟨phases, socket, alarms⟩ := regular.dormant (relayed.listening ▸ deaf) (relayed.channel ▸ open')
    exact ⟨relayed.channel ▸ phases, relayed.channel ▸ socket, List.sublist_nil.mp (alarms ▸ relayed.alarms)⟩

/-- What the network tells, for which a client with nothing under way has no use. -/
theorem network (regular : Regular client) {after : Client} (sole : Sole after.link)
    (heeds : after.listening = client.listening ∧ (after.channel.ended = false → client.channel.ended = false))
    (idle : client.channel.phases = [] → after = client) : Regular after where
  sole := sole
  dormant deaf going := by
    obtain ⟨phases, rest⟩ := regular.dormant (heeds.1 ▸ deaf) (heeds.2 going)
    rw [idle phases]
    exact ⟨phases, rest⟩

theorem fire (regular : Regular client) (number : Nat) :
    Regular (client.after ((Occurrence.fire number).action behaviors)) := by
  simp only [Occurrence.action, after_bind, after_get, said_get]
  split
  · rename_i timer found
    have set := List.mem_of_find?_eq_some found
    by_cases reconnects : timer.task = .reconnect
    · have alarm : timer ∈ client.alarms := List.mem_filter.mpr ⟨set, by simpa using reconnects⟩
      have conducted := conducted_fire reconnects client
      refine ⟨(sole_reconnect regular.sole alarm).2, fun deaf open' => ?_⟩
      -- A client that was not started has put no reconnect off.
      obtain ⟨-, -, quiet⟩ := regular.dormant (conducted.listening ▸ deaf) (conducted.open' open')
      rw [quiet] at alarm
      cases alarm
    · exact regular.relayed (acting_relayed.fire set reconnects)
  · exact regular

theorem start (regular : Regular client) : Regular (client.after start) := by
  cases listening : client.listening with
  | true =>
    have same : client.after Client.start = client := by simp [Client.start, listening]
    rw [same]
    exact regular
  | false =>
    have begun : client.after Client.start = { client.after connect with listening := true } := by
      simp [Client.start, listening]
    rw [begun]
    refine ⟨?_, fun deaf => by cases deaf⟩
    change Sole (client.after connect).link
    cases ended : client.channel.ended with
    | true =>
      -- Once closed, the client follows the page again but does not connect.
      have same : client.after connect = client := by simp [connect, ended]
      rw [same]
      exact regular.sole
    | false =>
      obtain ⟨phases, socket, alarms⟩ := regular.dormant listening ended
      exact sole_connect phases socket alarms

theorem close (regular : Regular client) : Regular (client.after close) where
  sole := sole_close regular.sole
  dormant _ open' := by
    rw [ended_close] at open'
    cases open'

theorem destroy (regular : Regular client) : Regular (client.after destroy) := by
  have gone : client.after Client.destroy = (client.deafened.after Client.close).after dispose := rfl
  rw [gone]
  refine Regular.relayed ?_ (relayed_operation .dispose _)
  exact ⟨sole_close regular.sole, fun _ open' => by rw [ended_close] at open'; cases open'⟩

/-- Whatever happens to a client, it has one thing under way at most. -/
theorem occurrence (regular : Regular client) (relays : behaviors.Keep Relayed) {occurrence : Occurrence}
    (own : occurrence.Own) : Regular (client.after (occurrence.action behaviors)) := by
  cases occurrence with
  | fire number => exact regular.fire number
  | start => exact regular.start
  | destroy => exact regular.destroy
  | close => exact regular.close
  | connect => exact own.elim
  | opened attempt =>
    refine regular.network (sole_opened regular.sole attempt) ?_ fun phases => (idle_network phases attempt).1
    rcases opened_cases client attempt with conducted | ⟨-, opens⟩
    · exact ⟨conducted.listening, conducted.open'⟩
    · exact opens.symm ▸ ⟨rfl, id⟩
  | refused attempt =>
    have conducted := conducted_refused attempt client
    exact regular.network (sole_refused regular.sole attempt) ⟨conducted.listening, conducted.open'⟩
      fun phases => (idle_network phases attempt).2.1
  | closed attempt =>
    have conducted := conducted_closed attempt client
    exact regular.network (sole_closed regular.sole attempt) ⟨conducted.listening, conducted.open'⟩
      fun phases => (idle_network phases attempt).2.2.1
  | received attempt frame =>
    have conducted := conducted_received attempt frame client
    exact regular.network (sole_received regular.sole attempt frame) ⟨conducted.listening, conducted.open'⟩
      fun phases => (idle_network phases attempt).2.2.2 frame
  | operation | event | focus | blur | page | time =>
    exact regular.relayed (relayed_occurrence relays (by trivial) client)

end Regular

/-- A client that has not connected yet is regular. -/
theorem Fresh.regular (fresh : Fresh client) : Regular client where
  sole := .quiet (congrArg Channel.phases fresh.channel) (congrArg Channel.socket fresh.channel) fresh.quiet
  dormant _ _ :=
    ⟨congrArg Channel.phases fresh.channel, congrArg Channel.socket fresh.channel, fresh.quiet⟩

end occurrences

end Retouch.Client
