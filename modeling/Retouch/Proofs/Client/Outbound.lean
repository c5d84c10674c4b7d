import Retouch.Client.World
import Retouch.Proofs.Client.Reconnect
import Retouch.Proofs.Client.Relay

/-!
# What arrives at a socket

A client may connect again and again, and what it writes takes its time: each socket has a writer that sends one text
after the other, texts can be lost on the way, and the writer stops when the socket is left, be it in the middle of a
text. Still each socket gets, in order and each of them once at most, texts that the client has accepted while this was
the socket in use, and none that it had accepted before.

## Main statements

* `Post.history`, and `history_after`: a move adds to the history of a socket what the client accepts for it, at most.
* `received_sublist`: what arrives at a socket, after all moves in any order.
-/
namespace Retouch.Client

/-! ### Writers -/

/-- The texts for one socket. -/
def textsFor (attempt : Nat) (lines : List (Nat × String)) : List String :=
  (lines.filter fun line => line.1 = attempt).map Prod.snd

theorem textsFor_append (attempt : Nat) (first second : List (Nat × String)) :
    textsFor attempt (first ++ second) = textsFor attempt first ++ textsFor attempt second := by
  simp [textsFor]

/-- Texts for the socket in use are for no other one. -/
theorem textsFor_forSocket {attempt : Nat} {socket : Option Nat} (other : socket ≠ some attempt)
    (texts : List String) : textsFor attempt (forSocket socket texts) = [] := by
  cases socket with
  | none => rfl
  | some used =>
    have apart : used ≠ attempt := fun same => other (congrArg some same)
    simp [textsFor, forSocket, apart]

/-- The texts that the writer still has to send, in order. -/
def Writer.left (writer : Writer) : List String := writer.sending.toList ++ writer.waiting

@[simp] theorem Writer.left_accept (writer : Writer) (text : String) :
    (writer.accept text).left = writer.left ++ [text] := by
  simp [Writer.left, Writer.accept]

@[simp] theorem Writer.left_take (writer : Writer) : writer.take.left = writer.left := by
  obtain ⟨waiting, sending⟩ := writer
  cases sending with
  | some text => rfl
  | none =>
    cases waiting with
    | nil => rfl
    | cons text rest => rfl

theorem Writer.left_finish (writer : Writer) : writer.left = writer.sending.toList ++ writer.finish.left := rfl

theorem Writer.left_stop (writer : Writer) : writer.stop.left.Sublist writer.left :=
  (List.Sublist.refl _).append (List.nil_sublist _)

namespace Post

variable (post : Post) (attempt : Nat)

theorem writer_update (other : Nat) (f : Writer → Writer) :
    (post.update attempt f).writer other = if attempt = other then f (post.writer other) else post.writer other := by
  unfold writer update
  rw [Table.get?_put]
  split
  · rename_i here
    rw [here]
    rfl
  · rfl

/-- What has arrived at a socket. -/
def received : List String := textsFor attempt post.arrived

/-- What has arrived at a socket, and what its writer still has to send. -/
def history : List String := post.received attempt ++ (post.writer attempt).left

theorem history_other {f : Writer → Writer} {other : Nat} (apart : other ≠ attempt) :
    (post.update other f).history attempt = post.history attempt := by
  unfold history
  rw [writer_update, if_neg apart]
  rfl

theorem history_accept (line : Nat × String) :
    (post.accept line).history attempt = post.history attempt ++ textsFor attempt [line] := by
  by_cases here : line.1 = attempt
  · unfold history accept
    rw [writer_update, if_pos here, Writer.left_accept, ← List.append_assoc]
    simp [textsFor, here, received, update]
  · have none : textsFor attempt [line] = [] := by simp [textsFor, here]
    rw [none, List.append_nil]
    exact history_other post attempt here

theorem history_acceptAll (lines : List (Nat × String)) :
    (lines.foldl accept post).history attempt = post.history attempt ++ textsFor attempt lines := by
  induction lines generalizing post with
  | nil => exact (List.append_nil _).symm
  | cons line rest ih =>
    rw [List.foldl_cons, ih, history_accept, List.append_assoc, ← textsFor_append]
    rfl

theorem history_take (other : Nat) : (post.take other).history attempt = post.history attempt := by
  by_cases here : other = attempt
  · unfold history take
    rw [writer_update, if_pos here, Writer.left_take]
    rfl
  · exact history_other post attempt here

theorem history_deliver (other : Nat) : (post.deliver other).history attempt = post.history attempt := by
  unfold deliver
  split
  · rename_i text sending
    unfold history received
    by_cases here : other = attempt
    -- What arrives is what its writer would have sent next, so it only moves on within the history.
    · subst here
      have sent : (post.writer other).left = text :: (post.writer other).finish.left := by
        rw [Writer.left_finish, sending]
        rfl
      have writer : (post.update other Writer.finish).writer other = (post.writer other).finish := by
        rw [writer_update, if_pos rfl]
      have arrives : textsFor other [(other, text)] = [text] := by simp [textsFor]
      rw [textsFor_append, arrives, sent, List.append_assoc]
      exact congrArg (fun writer => _ ++ ([text] ++ Writer.left writer)) writer
    · have writer : (post.update other Writer.finish).writer attempt = post.writer attempt := by
        rw [writer_update, if_neg here]
      have none : textsFor attempt [(other, text)] = [] := by simp [textsFor, here]
      rw [textsFor_append, none, List.append_nil]
      exact congrArg (fun writer => _ ++ Writer.left writer) writer
  · rfl

theorem history_lose (other : Nat) : ((post.lose other).history attempt).Sublist (post.history attempt) := by
  by_cases here : other = attempt
  -- A text that is lost is missing in the history, and all the others keep their order.
  · unfold history lose
    rw [writer_update, if_pos here]
    refine (List.Sublist.refl _).append ?_
    rw [Writer.left_finish (post.writer attempt)]
    exact List.sublist_append_right _ _
  · exact (history_other post attempt here).symm ▸ .refl _

theorem history_stop (other : Nat) :
    ((post.update other Writer.stop).history attempt).Sublist (post.history attempt) := by
  by_cases here : other = attempt
  · unfold history
    rw [writer_update, if_pos here]
    exact (List.Sublist.refl _).append (Writer.left_stop _)
  · exact (history_other post attempt here).symm ▸ .refl _

/-- What the client has written from one state to the next is added to the history, unless its writer has stopped. -/
theorem history_follow (before after : Client) : ((post.follow before after).history attempt).Sublist
    (post.history attempt ++ textsFor attempt ((written after.effects).drop (written before.effects).length)) := by
  rw [← history_acceptAll]
  unfold follow
  dsimp only
  split
  · exact history_stop _ _ _
  · exact .refl _

end Post

/-! ### What the client accepts -/

/-- The texts that an action writes. -/
def uttered (client : Client) (action : Action Unit) : List String :=
  ((written (client.after action).effects).drop (written client.effects).length).map Prod.snd

/-- What is written is written to the socket in use. -/
theorem Course.drop_written {client : Client} {action : Action Unit} (course : Course client (client.after action)) :
    (written (client.after action).effects).drop (written client.effects).length =
      forSocket client.channel.socket (client.uttered action) := by
  obtain ⟨texts, lines⟩ := course.lines
  unfold uttered
  rw [lines, List.drop_left]
  cases client.channel.socket <;> simp [forSocket, Function.comp_def]

/-! ### Moves -/

/-- A client with the writers of its sockets. -/
structure Line where
  client : Client
  post : Post := {}

def Line.act (line : Line) (action : Action Unit) : Line :=
  ⟨line.client.after action, line.post.follow line.client (line.client.after action)⟩

/-- What can happen to a client and to the writers of its sockets. -/
inductive Move where
  /-- The client is told to send a message. -/
  | send (message : Json)
  | occurs (occurrence : Occurrence)
  /-- The writer of a socket begins to send its next text. -/
  | take (attempt : Nat)
  /-- The text that is being sent arrives, also when its writer has stopped meanwhile. -/
  | arrive (attempt : Nat)
  /-- The text that is being sent is lost. -/
  | lose (attempt : Nat)

namespace Move

def after (behaviors : Behaviors) (line : Line) : Move → Line
  | send message => line.act (discard (write message))
  | occurs occurrence => line.act (occurrence.action behaviors)
  | take attempt => { line with post := line.post.take attempt }
  | arrive attempt => { line with post := line.post.deliver attempt }
  | lose attempt => { line with post := line.post.lose attempt }

/-- The texts that the client accepts, which are for the socket in use. A message is accepted when the client says
so; besides it has edits of its own to send. -/
def accepted (behaviors : Behaviors) (client : Client) : Move → List (Nat × String)
  | send message => if client.said (write message) then forSocket client.channel.socket [message.write] else []
  | occurs occurrence => forSocket client.channel.socket (client.uttered (occurrence.action behaviors))
  | take _ | arrive _ | lose _ => []

end Move

/-- What is left after all moves, one after another. -/
def Line.run (behaviors : Behaviors) (line : Line) (moves : List Move) : Line :=
  moves.foldl (Move.after behaviors) line

/-- The texts that the client accepts in all moves, one after another. -/
def Line.accepted (behaviors : Behaviors) (line : Line) : List Move → List (Nat × String)
  | [] => []
  | move :: rest => move.accepted behaviors line.client ++ Line.accepted behaviors (move.after behaviors line) rest

/-- The client and the writers of a world. -/
def World.line (world : World) : Line := ⟨world.client, world.post⟩

theorem World.line_act (world : World) (action : Action Unit) :
    ((World.act action).run world).2.line = world.line.act action := rfl

/-- A world lets its writers make the same moves. -/
theorem World.line_work (world : World) (attempt : Nat) (behaviors : Behaviors) :
    ∃ move ∈ [Move.take attempt, .arrive attempt, .lose attempt],
      (world.work attempt).line = move.after behaviors world.line := by
  unfold work
  split
  · exact ⟨.take attempt, by simp, rfl⟩
  · split
    · exact ⟨.lose attempt, by simp, rfl⟩
    · exact ⟨.arrive attempt, by simp, rfl⟩

section moves

variable {behaviors : Behaviors} (relays : behaviors.Keep Relayed)

/-- A message is accepted just if it is written, and then it is written to the socket in use. -/
theorem accepted_send (client : Client) (message : Json) : (Move.send message).accepted behaviors client =
    (written (client.after (write message)).effects).drop (written client.effects).length := by
  rw [written_write, List.drop_left, Move.accepted, said_write]
  cases client.channel.socket <;> simp [forSocket]

include relays

theorem course_after (line : Line) (move : Move) : Course line.client (move.after behaviors line).client := by
  cases move with
  | send message => exact (relayed_write message line.client).course
  | occurs occurrence => exact (way_occurrence relays occurrence line.client).course
  | take | arrive | lose => exact (Relayed.refl line.client).course

/-- A move adds to the history of a socket what the client accepts for it, at most. -/
theorem history_after (line : Line) (move : Move) (attempt : Nat) :
    ((move.after behaviors line).post.history attempt).Sublist
      (line.post.history attempt ++ textsFor attempt (move.accepted behaviors line.client)) := by
  have nothing : line.post.history attempt ++ textsFor attempt [] = line.post.history attempt := List.append_nil _
  cases move with
  | send message =>
    rw [accepted_send]
    exact line.post.history_follow attempt _ _
  | occurs occurrence =>
    have follow := line.post.history_follow attempt line.client (line.client.after (occurrence.action behaviors))
    rw [(way_occurrence relays occurrence line.client).course.drop_written] at follow
    exact follow
  | take other =>
    refine nothing.symm ▸ ?_
    exact (line.post.history_take attempt other).symm ▸ .refl _
  | arrive other =>
    refine nothing.symm ▸ ?_
    exact (line.post.history_deliver attempt other).symm ▸ .refl _
  | lose other =>
    refine nothing.symm ▸ ?_
    exact line.post.history_lose attempt other

theorem history_run (line : Line) (moves : List Move) (attempt : Nat) :
    ((line.run behaviors moves).post.history attempt).Sublist
      (line.post.history attempt ++ textsFor attempt (line.accepted behaviors moves)) := by
  induction moves generalizing line with
  | nil => exact (List.append_nil _).symm ▸ .refl _
  | cons move rest ih =>
    -- What the first move adds comes before what the others add.
    refine (ih (move.after behaviors line)).trans ?_
    rw [Line.accepted, textsFor_append, ← List.append_assoc]
    exact (history_after relays line move attempt).append (.refl _)

/-! ### Sockets that open later -/

/-- The socket in use is the one of an attempt that has led to it. -/
structure Led (client : Client) : Prop where
  numbered : client.Numbered
  used : ∀ attempt, client.channel.socket = some attempt → ¬Unopened client attempt

omit relays in
theorem Led.course {before after : Client} (led : Led before) (course : Course before after) : Led after where
  numbered := course.numbered led.numbered
  used attempt used new := by
    rcases course.used led.numbered attempt used with before | opened
    · exact led.used attempt before (course.once attempt new)
    · exact opened new

theorem unopened_run {line : Line} {moves : List Move} {attempt : Nat}
    (new : Unopened (line.run behaviors moves).client attempt) : Unopened line.client attempt := by
  induction moves generalizing line with
  | nil => exact new
  | cons move rest ih => exact (course_after relays line move).once attempt (ih new)

/-- For an attempt that has not led to a socket yet, nothing was accepted. -/
theorem textsFor_accepted_unopened {line : Line} (led : Led line.client) {moves : List Move} {attempt : Nat}
    (new : Unopened (line.run behaviors moves).client attempt) :
    textsFor attempt (line.accepted behaviors moves) = [] := by
  induction moves generalizing line with
  | nil => rfl
  | cons move rest ih =>
    have whole : Unopened (line.run behaviors (move :: rest)).client attempt := new
    have first : Unopened line.client attempt := unopened_run relays whole
    have unused : line.client.channel.socket ≠ some attempt := fun used => led.used attempt used first
    rw [Line.accepted, textsFor_append, ih (led.course (course_after relays line move)) new, List.append_nil]
    cases move with
    | send message =>
      dsimp only [Move.accepted]
      split
      · exact textsFor_forSocket unused _
      · rfl
    | occurs occurrence => exact textsFor_forSocket unused _
    | take | arrive | lose => rfl

end moves

theorem Fresh.led {client : Client} (fresh : Fresh client) : Led client where
  numbered attempt phase known := by simp [phase?, fresh.channel] at known
  used attempt used := by simp [fresh.channel] at used

/-- A socket gets texts that the client has accepted while it was in use, in order and each of them once at most, and
none that the client had accepted before the attempt has led to it. -/
theorem received_sublist {behaviors : Behaviors} (relays : behaviors.Keep Relayed) {client : Client}
    (fresh : Fresh client) (moves : List Move) (attempt : Nat) :
    let line : Line := { client }
    ((line.run behaviors moves).post.received attempt).Sublist (textsFor attempt (line.accepted behaviors moves)) ∧
      ∀ early later, moves = early ++ later → Unopened (line.run behaviors early).client attempt →
        ((line.run behaviors moves).post.received attempt).Sublist
          (textsFor attempt ((line.run behaviors early).accepted behaviors later)) := by
  intro line
  have received (post : Post) : (post.received attempt).Sublist (post.history attempt) :=
    List.sublist_append_left _ _
  refine ⟨(received _).trans (history_run relays line moves attempt), ?_⟩
  rintro early later rfl new
  -- Up to then nothing has come into the history of the socket.
  have before := history_run relays line early attempt
  rw [textsFor_accepted_unopened relays fresh.led new] at before
  have empty : (line.run behaviors early).post.history attempt = [] := List.sublist_nil.mp before
  have after := history_run relays (line.run behaviors early) later attempt
  rw [empty, List.nil_append] at after
  have both : line.run behaviors (early ++ later) = (line.run behaviors early).run behaviors later :=
    List.foldl_append
  rw [both]
  exact (received _).trans after

/-- The first socket is left while its third text is being sent, and after its second one was lost; then the client
connects once more. -/
theorem received_two_sockets :
    let line : Line := { client := {} }
    let early : List Move := [.occurs .start, .occurs (.opened 0), .send (.int 1), .send (.int 2), .take 0, .arrive 0,
      .take 0, .lose 0, .send (.int 3), .send (.int 4), .take 0, .occurs (.closed 0), .send (.int 5), .arrive 0,
      .take 0, .occurs (.fire 0)]
    let later : List Move := [.occurs (.opened 1), .send (.int 6), .take 1, .arrive 1]
    let after := line.run standardBehaviors (early ++ later)
    after.post.received 0 = ["1", "3"] ∧ after.post.received 1 = ["6"] ∧
      (after.post.received 0).Sublist (textsFor 0 (line.accepted standardBehaviors (early ++ later))) ∧
      (after.post.received 1).Sublist
        (textsFor 1 ((line.run standardBehaviors early).accepted standardBehaviors later)) := by
  intro line early later after
  have received := received_sublist acting_relayed.standardBehaviors (fresh_new {}) (early ++ later)
  exact ⟨by decide +kernel, by decide +kernel, (received 0).1, (received 1).2 early later rfl (.inr (by decide +kernel))⟩

end Retouch.Client
