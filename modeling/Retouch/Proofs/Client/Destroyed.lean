import Retouch.Proofs.Client.Outbound
import Retouch.Proofs.Client.Regular

/-!
# Clients that were destroyed

A client that is destroyed takes leave of the page, has its socket closed or gives up the attempt that is under way,
and departs when this attempt is over. Since it has one thing under way at most, nothing is left that could come back
to it: it does not listen to the page any more, its timers are gone, no text waits to be sent, and neither the page nor
the time nor the network can make it do anything.

## Main statements

* `Destroyed`: how a client can be left when it was destroyed, and `destroyed_destroy`: how it is left when nothing else
  happens meanwhile.
* `final_destroyed`: when a client was destroyed, that is final.
-/
namespace Retouch.Client

section clients

variable {behaviors : Behaviors} {client : Client}

/-! ### Taking leave -/

/-- All that can happen while the client waits for its last attempt to be over, but that it is started once more. -/
def Occurrence.Meanwhile : Occurrence → Prop
  | .connect | .start => False
  | _ => True

theorem Occurrence.Meanwhile.own {occurrence : Occurrence} (meanwhile : occurrence.Meanwhile) : occurrence.Own := by
  cases occurrence with
  | connect => exact meanwhile.elim
  | _ => trivial

/-- What happens outside of the client: to the page, as time goes by, and on the network. -/
def Occurrence.Outside : Occurrence → Prop
  | .event _ | .focus _ | .blur _ | .page _ | .fire _ | .time _ => True
  | .opened _ | .refused _ | .closed _ | .received .. => True
  | _ => False

/-- The first part of being destroyed: the client follows the page no longer and connects no more. It asks for its
socket to be closed, or gives up the attempt that is under way. -/
def leave : Action Unit := do
  modify fun client => { client with listening := false }
  modify fun client => { client with channel := { client.channel with ended := true } }
  if let some timer := (← get).channel.reconnect then
    cancel timer
    modify fun client => { client with channel := { client.channel with reconnect := none } }
  match (← get).channel.socket with
  | some attempt => emit (.close attempt)
  | none => giveUp

/-- The second part, when its last attempt is over. -/
def depart : Action Unit := do
  setStatus .disconnected none
  dispose

/-- The client takes leave as it is closed, but that it waits. -/
theorem after_leave : client.after leave =
    client.deafened.ending.calmed.after (match client.deafened.ending.calmed.channel.socket with
      | some attempt => emit (.close attempt)
      | none => giveUp) := by
  unfold leave
  -- The timer of a reconnect is asked for after the client has ended, which does not change it.
  cases waiting : client.channel.reconnect with
  | none =>
    have calm : client.deafened.ending.calmed = client.deafened.ending := by
      simp [calmed, ending, deafened, waiting]
    rw [calm]
    simp only [after_bind, after_get, said_get, after_modify, waiting]
    cases socket : client.channel.socket <;> simp [ending, deafened, socket, waiting]
  | some number =>
    have calm : client.deafened.ending.calmed = { client.deafened.ending.after (cancel number) with
        channel := { client.ending.channel with reconnect := none } } := by
      simp [calmed, ending, deafened, waiting]
    rw [calm]
    simp only [after_bind, after_get, said_get, after_modify, waiting]
    cases socket : client.channel.socket <;> simp [ending, deafened, socket, cancel]

/-- A client that takes leave does not follow the page and connects no more. -/
theorem left_leave (client : Client) :
    (client.after leave).listening = false ∧ (client.after leave).channel.ended = true := by
  rw [after_leave]
  have calm := conducted_calmed client.deafened
  have ended := client.deafened.ended_calmed
  split
  · exact ⟨(conducted_emit rfl _).listening.trans calm.listening, (conducted_emit rfl _).ended ended⟩
  · exact ⟨(conducted_giveUp _).listening.trans calm.listening, (conducted_giveUp _).ended ended⟩

theorem Regular.leave (regular : Regular client) : Regular (client.after leave) := by
  refine ⟨?_, fun _ open' => ?_⟩
  · have deaf : Sole client.deafened.link := regular.sole
    have calm := sole_calmed deaf
    rw [after_leave]
    split
    · rw [(aside_emit _ _).link]
      exact calm
    · exact sole_giveUp calm
  · rw [(left_leave client).2] at open'
    cases open'

/-- Only to be started makes a client follow the page. -/
theorem deaf_occurrence (relays : behaviors.Keep Relayed) {occurrence : Occurrence} (other : occurrence.Meanwhile)
    (deaf : client.listening = false) : (client.after (occurrence.action behaviors)).listening = false := by
  cases way_occurrence relays occurrence client with
  | relayed relayed => exact relayed.listening.trans deaf
  | conducted conducted => exact conducted.listening.trans deaf
  | opened attempt _ opens => exact opens ▸ deaf
  | started starts => exact (starts ▸ other).elim
  | destroyed _ ends => exact ends ▸ (conducted_close client.deafened).listening

/-! ### Nothing is left -/

/-- The client does not follow the page, has no timers, and nothing is under way. -/
structure Gone (client : Client) : Prop where
  deaf : client.listening = false
  untimed : client.timers = []
  idle : client.channel.phases = []
  unused : client.channel.socket = none

/-- What happens outside of a client that is gone changes nothing but the page and the time. -/
theorem Gone.outside (gone : Gone client) {occurrence : Occurrence} (outside : occurrence.Outside) :
    ∃ tree focus now, client.after (occurrence.action behaviors) = { client with tree, focus, now } := by
  have focused (target : Option ElementId) : client.after (moveFocus behaviors target) = { client with
      focus := (client.after (moveFocus behaviors target)).focus } := by
    by_cases same : client.focus = target
    · subst same
      simp [moveFocus]
    · simp [moveFocus, same, gone.deaf]
  have rests {action : Action Unit} (rest : client.after action = client) :
      ∃ tree focus now, client.after action = { client with tree, focus, now } := ⟨_, _, _, rest⟩
  cases occurrence with
  | event event => exact rests (by simp [Occurrence.action, dispatch, gone.deaf])
  | focus target => exact ⟨_, _, _, focused target⟩
  | blur element =>
    by_cases here : client.focus = some element
    · refine ⟨_, _, _, Eq.trans ?_ (focused none)⟩
      simp [Occurrence.action, blur, here]
    · exact rests (by simp [Occurrence.action, blur, here])
  | page tree => exact ⟨tree, _, _, rfl⟩
  | fire number => exact rests (by simp [Occurrence.action, gone.untimed])
  | time now => exact ⟨_, _, now, rfl⟩
  | opened attempt => exact rests (idle_network gone.idle attempt).1
  | refused attempt => exact rests (idle_network gone.idle attempt).2.1
  | closed attempt => exact rests (idle_network gone.idle attempt).2.2.1
  | received attempt frame => exact rests ((idle_network gone.idle attempt).2.2.2 frame)
  | operation | start | destroy | connect | close => exact outside.elim

/-- When its last attempt is over, a client that departs is gone. -/
theorem Regular.gone (regular : Regular client) (deaf : client.listening = false)
    (done : ∀ attempt, attempt + 1 = client.channel.started → phase? client attempt = none) :
    Gone (client.after depart) := by
  suffices idle : client.channel.phases = [] ∧ client.channel.socket = none from ⟨deaf, rfl, idle.1, idle.2⟩
  -- An attempt or a socket that is under way is the last one, and this one is over.
  cases regular.sole with
  | idle phases socket => exact ⟨phases, socket⟩
  | trying n phases last =>
    have under := done n last.symm
    rw [link_channel] at phases
    simp [phase?, phases, Table.get?] at under
  | online n phases last =>
    have under := done n last.symm
    rw [link_channel] at phases
    simp [phase?, phases, Table.get?] at under

theorem socket_giveUp : (client.after giveUp).channel.socket = client.channel.socket := by
  simp only [giveUp, after_bind, after_get, said_get]
  split
  · split <;> rfl
  · rfl

/-- Without a socket, nothing is under way any more when the last attempt was given up. -/
theorem Sole.phases_giveUp (sole : Sole client.link) (socket : client.channel.socket = none) :
    (client.after giveUp).channel.phases = [] := by
  cases sole with
  | idle phases =>
    rw [link_channel] at phases
    rw [after_giveUp_idle client (by simp [phase?, phases])]
    exact phases
  | trying n phases last =>
    rw [link_channel] at phases
    have given := link_giveUp client last (by simp [phase?, phases, Table.get?])
    refine (congrArg (fun link => link.channel.phases) given).trans ?_
    simp [phases, Table.drop]
  | online n _ _ used => cases socket.symm.trans used

/-- To be destroyed is to take leave, to have the socket closed, if there is one, and to depart. -/
theorem after_destroy (client : Client) : client.after destroy = (match (client.after leave).channel.socket with
    | some attempt => (client.after leave).after (closed attempt)
    | none => client.after leave).after depart := by
  have gone : client.after destroy = (client.deafened.after close).after dispose := rfl
  rw [gone, after_close, after_leave]
  generalize client.deafened.ending.calmed = calmed
  cases socket : calmed.channel.socket with
  | none =>
    simp only [socket_giveUp, socket]
    rfl
  | some attempt =>
    have still : (calmed.after (emit (.close attempt))).channel.socket = some attempt := socket
    simp only [still]
    rfl

/-- A client that takes leave while it has no socket has nothing under way any more. -/
theorem Regular.phases_leave (regular : Regular client) (socket : (client.after Client.leave).channel.socket = none) :
    (client.after Client.leave).channel.phases = [] := by
  have deaf : Sole client.deafened.link := regular.sole
  have calm := sole_calmed deaf
  rw [after_leave] at socket ⊢
  generalize client.deafened.ending.calmed = calmed at calm socket ⊢
  cases used : calmed.channel.socket with
  | none => exact calm.phases_giveUp used
  | some attempt =>
    rw [used] at socket
    cases used.symm.trans socket

/-- And when its socket closes, nothing is under way either. -/
theorem Regular.idle_closed (regular : Regular client) {attempt : Nat}
    (socket : (client.after Client.leave).channel.socket = some attempt) :
    ((client.after Client.leave).after (closed attempt)).channel.phases = [] ∧
      ((client.after Client.leave).after (closed attempt)).channel.socket = none := by
  have opened := regular.leave.sole.opened_of_socket socket
  have link := link_closed_ended _ opened (left_leave client).2
  refine ⟨(congrArg (fun link => link.channel.phases) link).trans ?_, congrArg (fun link => link.channel.socket) link⟩
  simp [(regular.leave.sole.of_opened opened).1, Table.drop]

/-- A client has one socket in use at a time: another one comes into use only when there is none. -/
theorem Regular.socket_occurrence (regular : Regular client) (relays : behaviors.Keep Relayed)
    (occurrence : Occurrence) {attempt : Nat}
    (used : (client.after (occurrence.action behaviors)).channel.socket = some attempt) :
    client.channel.socket = some attempt ∨ client.channel.socket = none := by
  cases way_occurrence relays occurrence client with
  | relayed relayed => exact .inl (relayed.channel ▸ used)
  | conducted conducted => exact .inl (conducted.kept attempt used)
  | opened _ connecting => exact .inr (regular.sole.of_connecting connecting).2.2.1
  | started _ begins =>
    rw [begins] at used
    exact .inl ((conducted_connect client).kept attempt used)
  | destroyed _ ends =>
    rw [ends] at used
    exact .inl ((conducted_close client.deafened).kept attempt used)

end clients

/-! ### What waits to be sent -/

/-- Moves of a client that is only connected by itself. -/
def Move.Own : Move → Prop
  | .occurs occurrence => occurrence.Own
  | _ => True

/-- A client with its writers has one thing under way at most, and texts wait for the socket in use only. -/
structure Tidy (line : Line) : Prop where
  regular : Regular line.client
  drained : ∀ attempt, line.client.channel.socket ≠ some attempt → (line.post.writer attempt).waiting = []

namespace Post

/-- Texts for other sockets do not matter to a writer. -/
theorem writer_acceptAll (post : Post) {attempt : Nat} {lines : List (Nat × String)}
    (apart : ∀ line ∈ lines, line.1 ≠ attempt) : (lines.foldl accept post).writer attempt = post.writer attempt := by
  induction lines generalizing post with
  | nil => rfl
  | cons line rest ih =>
    rw [List.foldl_cons, ih _ fun other member => apart other (List.mem_cons_of_mem _ member)]
    unfold accept
    rw [writer_update, if_neg (apart line List.mem_cons_self)]

/-- Where nothing is written, at most a writer stops. -/
theorem follow_silent (post : Post) {before after : Client}
    (silent : written after.effects = written before.effects) : post.follow before after =
      match before.channel.socket, after.channel.socket with
      | some attempt, none => post.update attempt Writer.stop
      | _, _ => post := by
  unfold follow
  rw [silent, List.drop_length]
  rfl

end Post

section lines

variable {behaviors : Behaviors} {line : Line}

theorem Tidy.act (tidy : Tidy line) {action : Action Unit} (regular : Regular (line.client.after action))
    (course : Course line.client (line.client.after action))
    (single : ∀ attempt, (line.client.after action).channel.socket = some attempt →
      line.client.channel.socket = some attempt ∨ line.client.channel.socket = none) : Tidy (line.act action) := by
  refine ⟨regular, fun attempt unused => ?_⟩
  have unused : (line.client.after action).channel.socket ≠ some attempt := unused
  simp only [Line.act, Post.follow]
  rw [course.drop_written]
  cases before : line.client.channel.socket with
  | none => exact tidy.drained attempt (by simp [before])
  | some used =>
    cases after : (line.client.after action).channel.socket with
    | none =>
      -- The writer of the socket that was left has stopped; the others had nothing to send.
      rw [Post.writer_update]
      split
      · rfl
      · rename_i other
        rw [Post.writer_acceptAll _ (by simpa [forSocket] using fun _ _ => other)]
        exact tidy.drained attempt (by simpa [before] using other)
    | some still =>
      obtain rfl : used = still := by simpa [before] using single still after
      have other : used ≠ attempt := fun same => unused (by rw [after, same])
      dsimp only
      rw [Post.writer_acceptAll _ (by simpa [forSocket] using fun _ _ => other)]
      exact tidy.drained attempt (by simpa [before] using other)

theorem Tidy.relayed (tidy : Tidy line) {action : Action Unit}
    (relayed : Relayed line.client (line.client.after action)) : Tidy (line.act action) :=
  tidy.act (tidy.regular.relayed relayed) relayed.course fun _ used => .inl (relayed.channel ▸ used)

end lines

/-- No text comes to wait by what a writer does, or by what becomes of the text that is being sent. -/
theorem Post.waiting_update {post : Post} {attempt : Nat} (empty : (post.writer attempt).waiting = []) (other : Nat)
    {f : Writer → Writer} (keeps : ∀ writer : Writer, writer.waiting = [] → (f writer).waiting = []) :
    ((post.update other f).writer attempt).waiting = [] := by
  rw [writer_update]
  split
  · exact keeps _ empty
  · exact empty

theorem Post.waiting_take {post : Post} {attempt : Nat} (empty : (post.writer attempt).waiting = []) (other : Nat) :
    ((post.take other).writer attempt).waiting = [] := by
  refine waiting_update empty other fun writer idle => ?_
  obtain ⟨waiting, sending⟩ := writer
  obtain rfl : waiting = [] := idle
  cases sending <;> rfl

theorem Post.waiting_lose {post : Post} {attempt : Nat} (empty : (post.writer attempt).waiting = []) (other : Nat) :
    ((post.lose other).writer attempt).waiting = [] := waiting_update empty other fun _ idle => idle

theorem Post.waiting_deliver {post : Post} {attempt : Nat} (empty : (post.writer attempt).waiting = []) (other : Nat) :
    ((post.deliver other).writer attempt).waiting = [] := by
  unfold deliver
  split
  · exact waiting_lose empty other
  · exact empty

section lines

variable {behaviors : Behaviors} {line : Line}

theorem Tidy.after (tidy : Tidy line) (relays : behaviors.Keep Relayed) {move : Move} (own : move.Own) :
    Tidy (move.after behaviors line) := by
  cases move with
  | send message => exact tidy.relayed (relayed_write message line.client)
  | occurs occurrence =>
    exact tidy.act (tidy.regular.occurrence relays own) (way_occurrence relays occurrence line.client).course
      fun _ => tidy.regular.socket_occurrence relays occurrence
  | take other => exact ⟨tidy.regular, fun attempt unused => Post.waiting_take (tidy.drained attempt unused) other⟩
  | arrive other => exact ⟨tidy.regular, fun attempt unused => Post.waiting_deliver (tidy.drained attempt unused) other⟩
  | lose other => exact ⟨tidy.regular, fun attempt unused => Post.waiting_lose (tidy.drained attempt unused) other⟩

theorem Tidy.run (tidy : Tidy line) (relays : behaviors.Keep Relayed) {moves : List Move}
    (own : ∀ move ∈ moves, move.Own) : Tidy (line.run behaviors moves) := by
  -- What has happened first leaves the line tidy for the rest of the run.
  induction moves generalizing line with
  | nil => exact tidy
  | cons move rest ih =>
    exact ih (tidy.after relays (own _ List.mem_cons_self)) fun other member => own other (List.mem_cons_of_mem _ member)

theorem Fresh.tidy {client : Client} (fresh : Fresh client) : Tidy { client } :=
  ⟨fresh.regular, fun _ _ => rfl⟩

/-! ### Destroyed -/

/-- What can happen while the client waits for its last attempt to be over. -/
def Move.Meanwhile : Move → Prop
  | .occurs occurrence => occurrence.Meanwhile
  | _ => True

theorem Move.Meanwhile.own {move : Move} (meanwhile : move.Meanwhile) : move.Own := by
  cases move with
  | occurs occurrence => exact Occurrence.Meanwhile.own meanwhile
  | _ => trivial

/-- How a client can be left when it was destroyed: it has waited for its last attempt, whatever happened meanwhile. -/
def Destroyed (behaviors : Behaviors) (line after : Line) : Prop :=
  ∃ meanwhile : List Move, (∀ move ∈ meanwhile, move.Meanwhile) ∧
    let waited := (line.act leave).run behaviors meanwhile
    (∀ attempt, attempt + 1 = waited.client.channel.started → phase? waited.client attempt = none) ∧
      after = waited.act depart

/-- What happens outside of the client, and what its writers do. -/
def Move.Outside : Move → Prop
  | .send _ => False
  | .occurs occurrence => occurrence.Outside
  | .take _ | .arrive _ | .lose _ => True

/-- Nothing is left of the client that could act. It has no listeners and no timers, it is not connected, and nothing
waits to be sent. Whatever happens outside of it changes nothing but the page and the time, the client asks for nothing,
and nothing arrives but what was being sent when it departed. -/
structure Final (behaviors : Behaviors) (line : Line) : Prop where
  detached : ∀ type, listenerCount line.client type = 0
  untimed : line.client.timers = []
  disconnected : line.client.status = .disconnected
  unsent : ∀ attempt, (line.post.writer attempt).waiting = []
  still : ∀ later : List Move, (∀ move ∈ later, move.Outside) →
    (∃ tree focus now, (line.run behaviors later).client = { line.client with tree, focus, now }) ∧
      ∀ attempt, ((line.run behaviors later).post.received attempt).Sublist
        (line.post.received attempt ++ (line.post.writer attempt).sending.toList)

theorem conducted_leave (client : Client) : Conducted client.deafened (client.after leave) := by
  rw [after_leave]
  refine (conducted_calmed client.deafened).trans ?_
  split
  · exact conducted_emit rfl _
  · exact conducted_giveUp _

/-- A client that takes leave asks for its socket to be closed, and waits. -/
theorem socket_leave (client : Client) : (client.after leave).channel.socket = client.channel.socket := by
  have calm : client.deafened.ending.calmed.channel.socket = client.channel.socket :=
    congrArg (fun link => link.channel.socket) (link_ending_calmed client.deafened)
  rw [after_leave]
  split
  · exact calm
  · exact socket_giveUp.trans calm

theorem relayed_depart : Within Relayed depart :=
  relayed_bind (relayed_setStatus _ _) fun _ => relayed_operation .dispose

theorem Tidy.leave (tidy : Tidy line) : Tidy (line.act leave) := by
  have course := (conducted_leave line.client).course
  exact tidy.act tidy.regular.leave ⟨course.lines, course.numbered, course.once, course.used⟩
    fun _ used => .inl ((socket_leave line.client).symm.trans used)

theorem deaf_run (line : Line) (relays : behaviors.Keep Relayed) {moves : List Move} (other : ∀ move ∈ moves, move.Meanwhile)
    (deaf : line.client.listening = false) : (line.run behaviors moves).client.listening = false := by
  induction moves generalizing line with
  | nil => exact deaf
  | cons move rest ih =>
    refine ih _ (fun later member => other later (List.mem_cons_of_mem _ member)) ?_
    cases move with
    | send message => exact (relayed_write message line.client).listening.trans deaf
    | occurs occurrence => exact deaf_occurrence relays (other _ List.mem_cons_self) deaf
    | take | arrive | lose => exact deaf

variable (behaviors) in
/-- What happens outside of a client that is gone, and what its writers do, leaves it gone and lets no text wait. -/
theorem gone_after (gone : Gone line.client) (unsent : ∀ attempt, (line.post.writer attempt).waiting = [])
    {move : Move} (outside : move.Outside) :
    (∃ tree focus now, (move.after behaviors line).client = { line.client with tree, focus, now }) ∧
      (∀ attempt, ((move.after behaviors line).post.writer attempt).waiting = []) ∧
      ∀ attempt, ((move.after behaviors line).post.history attempt).Sublist (line.post.history attempt) := by
  cases move with
  | send => exact outside.elim
  | occurs occurrence =>
    obtain ⟨tree, focus, now, step⟩ : ∃ tree focus now,
        line.client.after (occurrence.action behaviors) = { line.client with tree, focus, now } := gone.outside outside
    have post : ((Move.occurs occurrence).after behaviors line).post = line.post := by
      simp only [Move.after, Line.act, step]
      refine (Post.follow_silent line.post rfl).trans ?_
      split
      · rename_i used _
        cases gone.unused.symm.trans used
      · rfl
    rw [post]
    exact ⟨⟨tree, focus, now, step⟩, unsent, fun _ => .refl _⟩
  | take other =>
    exact ⟨⟨_, _, _, rfl⟩, fun attempt => Post.waiting_take (unsent attempt) other,
      fun attempt => (Post.history_take line.post attempt other).symm ▸ .refl _⟩
  | arrive other =>
    exact ⟨⟨_, _, _, rfl⟩, fun attempt => Post.waiting_deliver (unsent attempt) other,
      fun attempt => (Post.history_deliver line.post attempt other).symm ▸ .refl _⟩
  | lose other =>
    exact ⟨⟨_, _, _, rfl⟩, fun attempt => Post.waiting_lose (unsent attempt) other,
      fun attempt => Post.history_lose line.post attempt other⟩

theorem gone_run (gone : Gone line.client) (unsent : ∀ attempt, (line.post.writer attempt).waiting = [])
    {later : List Move} (outside : ∀ move ∈ later, move.Outside) :
    (∃ tree focus now, (line.run behaviors later).client = { line.client with tree, focus, now }) ∧
      ∀ attempt, ((line.run behaviors later).post.history attempt).Sublist (line.post.history attempt) := by
  induction later generalizing line with
  | nil => exact ⟨⟨_, _, _, rfl⟩, fun _ => .refl _⟩
  | cons move rest ih =>
    obtain ⟨⟨tree, focus, now, step⟩, unsent', fewer⟩ :=
      gone_after behaviors gone unsent (outside _ List.mem_cons_self)
    -- The page and the time do not matter to a client that is gone.
    have gone' : Gone (move.after behaviors line).client := step ▸ ⟨gone.deaf, gone.untimed, gone.idle, gone.unused⟩
    obtain ⟨⟨tree', focus', now', later⟩, fewest⟩ :=
      ih gone' unsent' fun other member => outside other (List.mem_cons_of_mem _ member)
    refine ⟨⟨tree', focus', now', ?_⟩, fun attempt => (fewest attempt).trans (fewer attempt)⟩
    refine later.trans ?_
    rw [step]

theorem Gone.final (gone : Gone line.client) (disconnected : line.client.status = .disconnected)
    (unsent : ∀ attempt, (line.post.writer attempt).waiting = []) : Final behaviors line where
  detached type := by simp [listenerCount, gone.deaf]
  untimed := gone.untimed
  disconnected := disconnected
  unsent := unsent
  still later outside := by
    obtain ⟨client, fewer⟩ := gone_run gone unsent outside
    refine ⟨client, fun attempt => ((List.sublist_append_left _ _).trans (fewer attempt)).trans ?_⟩
    unfold Post.history Writer.left
    rw [unsent attempt, List.append_nil]

/-- A client that is destroyed in one go has waited for its socket to close. -/
theorem destroyed_destroy (tidy : Tidy line) : Destroyed behaviors line (line.act destroy) := by
  have regular := tidy.regular
  have done {after : Client} (phases : after.channel.phases = []) (attempt : Nat) : phase? after attempt = none := by
    simp [phase?, phases]
  have leaves : written (line.client.after leave).effects = written line.client.effects :=
    (conducted_leave line.client).lines
  have departs (client : Client) : written (client.after depart).effects = written client.effects :=
    (conducted_setStatus .disconnected none client).lines
  have ends := after_destroy line.client
  cases socket : line.client.channel.socket with
  | none =>
    have none := (socket_leave line.client).trans socket
    rw [none] at ends
    refine ⟨[], by simp, fun attempt _ => done (regular.phases_leave none) attempt, ?_⟩
    simp only [Line.run, List.foldl_nil, Line.act, ends, Line.mk.injEq, true_and]
    rw [Post.follow_silent _ ((departs _).trans leaves), Post.follow_silent _ (departs _),
      Post.follow_silent _ leaves, socket, none]
  | some attempt =>
    have used := (socket_leave line.client).trans socket
    rw [used] at ends
    have closes := (conducted_closed attempt (line.client.after leave)).lines
    obtain ⟨phases, left⟩ := regular.idle_closed used
    refine ⟨[.occurs (.closed attempt)], by simp [Move.Meanwhile, Occurrence.Meanwhile],
      fun last _ => done phases last, ?_⟩
    have parted : (((line.client.after leave).after (closed attempt)).after depart).channel.socket = none := left
    simp only [Line.run, List.foldl_cons, List.foldl_nil, Move.after, Occurrence.action, Line.act, ends, Line.mk.injEq,
      true_and]
    rw [Post.follow_silent _ ((departs _).trans (closes.trans leaves)), Post.follow_silent _ (departs _),
      Post.follow_silent _ closes, Post.follow_silent _ leaves, socket, used, left, parted]

end lines

/-- When a client was destroyed that was in any state, that is final. -/
theorem final_destroyed {behaviors : Behaviors} (relays : behaviors.Keep Relayed) {client : Client}
    (fresh : Fresh client) {moves : List Move} (own : ∀ move ∈ moves, move.Own) :
    let line := Line.run behaviors { client } moves
    Destroyed behaviors line (line.act destroy) ∧ ∀ after, Destroyed behaviors line after → Final behaviors after := by
  intro line
  have tidy : Tidy line := fresh.tidy.run relays own
  refine ⟨destroyed_destroy tidy, ?_⟩
  rintro _ ⟨meanwhile, other, done, rfl⟩
  -- While it waits the client is still tidy, follows the page no longer, and in the end has nothing under way.
  have waited := tidy.leave.run relays fun move member => (other move member).own
  have deaf := deaf_run (line.act leave) relays other (left_leave line.client).1
  have gone := waited.regular.gone deaf done
  refine Gone.final gone rfl fun attempt => (waited.relayed (relayed_depart _)).drained attempt fun used => ?_
  cases gone.unused.symm.trans used

/-- A client is destroyed while the edit of a text waits to be committed, a text is being sent and another one waits. -/
theorem final_destroyed_heading :
    let moves : List Move := [.occurs .start, .occurs (.opened 0), .occurs (.event (.click (some 1))),
      .occurs (.event (.doubleClick (some 1))), .send (.int 1), .send (.int 2), .take 0, .occurs (.focus (some 2))]
    let line := Line.run standardBehaviors { client := { tree := twoHeadings.tree } } moves
    (line.client.session.isSome ∧ line.client.timers.map Timer.task = [.commit 1] ∧
      line.post.writer 0 = ⟨["2"], some "1"⟩ ∧ listenerCount line.client none = 6) ∧
    Final standardBehaviors (line.act destroy) := by
  intro moves line
  have fresh : Fresh { tree := twoHeadings.tree } := ⟨rfl, rfl, .nil, by simp⟩
  have own : ∀ move ∈ moves, move.Own := by simp [moves, Move.Own, Occurrence.Own]
  obtain ⟨destroyed, final⟩ := final_destroyed acting_relayed.standardBehaviors fresh own
  exact ⟨⟨by decide +kernel, by decide +kernel, by decide +kernel, by decide +kernel⟩, final _ destroyed⟩

end Retouch.Client
