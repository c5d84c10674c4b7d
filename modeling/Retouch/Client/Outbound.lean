import Retouch.Client.Basic

/-!
# Texts on their way out

Each socket has a writer of its own, which sends the texts that the client has written to this socket, one after the
other. When the client leaves the socket in use, its writer stops: what waits is dropped, and what is being sent may
still arrive. A text that cannot be sent is lost, and the writer goes on with the next one.
-/
namespace Retouch.Client

/-- What is written, and to the socket of which attempt. -/
def written (effects : List Effect) : List (Nat × String) :=
  effects.filterMap fun
    | .write attempt text => some (attempt, text)
    | _ => none

/-- What sends the texts for one socket. -/
structure Writer where
  /-- The texts that wait, the oldest one first. -/
  waiting : List String := []
  sending : Option String := none
  deriving DecidableEq, Repr

namespace Writer

def accept (writer : Writer) (text : String) : Writer := { writer with waiting := writer.waiting ++ [text] }

/-- Begins to send the next text, unless one is being sent. -/
def take (writer : Writer) : Writer :=
  match writer.sending, writer.waiting with
  | none, text :: rest => ⟨rest, some text⟩
  | _, _ => writer

def finish (writer : Writer) : Writer := { writer with sending := none }

def stop (writer : Writer) : Writer := { writer with waiting := [] }

def isBusy (writer : Writer) : Bool := writer.sending.isSome || !writer.waiting.isEmpty

end Writer

/-- The writers of all sockets, and what has arrived. -/
structure Post where
  writers : Table Nat Writer := []
  /-- The texts that have arrived, and at the socket of which attempt. -/
  arrived : List (Nat × String) := []
  deriving DecidableEq, Repr

namespace Post

def writer (post : Post) (attempt : Nat) : Writer := (post.writers.get? attempt).getD {}

def update (post : Post) (attempt : Nat) (f : Writer → Writer) : Post :=
  { post with writers := post.writers.put attempt (f (post.writer attempt)) }

def accept (post : Post) (line : Nat × String) : Post := post.update line.1 fun writer => writer.accept line.2

def take (post : Post) (attempt : Nat) : Post := post.update attempt Writer.take

/-- The text that is being sent arrives. -/
def deliver (post : Post) (attempt : Nat) : Post :=
  match (post.writer attempt).sending with
  | some text => { post.update attempt Writer.finish with arrived := post.arrived ++ [(attempt, text)] }
  | none => post

/-- The text that is being sent is lost. -/
def lose (post : Post) (attempt : Nat) : Post := post.update attempt Writer.finish

/-- Takes over what the client has written from one state to the next. When the client has left its socket, the writer
of this socket stops. -/
def follow (post : Post) (before after : Client) : Post :=
  let lines := (written after.effects).drop (written before.effects).length
  let post := lines.foldl accept post
  match before.channel.socket, after.channel.socket with
  | some attempt, none => post.update attempt Writer.stop
  | _, _ => post

/-- The first socket whose writer has something to do. -/
def busy? (post : Post) : Option Nat := (post.writers.find? fun entry => entry.2.isBusy).map Prod.fst

end Post

end Retouch.Client
