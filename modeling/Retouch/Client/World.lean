import Retouch.Client.Events
import Retouch.Client.Outbound

/-!
# A client and its surroundings

A client together with a network that answers by itself: it accepts attempts to connect, refuses them, or
lets them hang until it is told otherwise, and its sockets can fail to send. What the client asks for is
carried out in order until nothing is left to do, and then what it has written is sent. Timers fire when they are
told to, but those without a delay may be left to fire by themselves.
-/
namespace Retouch.Client

/-- What becomes of an attempt to connect. -/
inductive Answering where
  | accept
  | refuse
  | hang
  deriving DecidableEq, Repr

structure World where
  client : Client
  behaviors : Behaviors := standardBehaviors
  answering : Answering := .accept
  /-- Whether timers without a delay fire by themselves. -/
  selfFiring : Bool := false
  /-- The last attempt that was left hanging. -/
  hanging : Option Nat := none
  /-- The attempt with the newest socket. -/
  newest : Option Nat := none
  /-- The attempt whose socket fails to send. -/
  broken : Option Nat := none
  /-- The addresses of all attempts. -/
  addresses : List String := []
  post : Post := {}
  notes : List String := []
  notices : List Nat := []

namespace World

def act {α : Type} (action : Action α) : StateM World α := fun world =>
  let (a, client) := action.run world.client
  (a, { world with client, post := world.post.follow world.client client })

/-- What has arrived at sockets. -/
def written (world : World) : List String := world.post.arrived.map Prod.snd

/-- Answers an attempt to connect. -/
def answer (attempt : Nat) (answering : Answering) : StateM World Unit := do
  match answering with
  | .accept =>
    modify fun world => { world with newest := some attempt }
    act (opened attempt)
  | .refuse => act (refused attempt)
  | .hang => modify fun world => { world with hanging := some attempt }

/-- Carries out what the client asks for. -/
def carryOut : Effect → StateM World Unit
  | .connect attempt url => do
    modify fun world => { world with addresses := world.addresses ++ [url] }
    answer attempt (← get).answering
  -- What is written was handed to the writer of the socket at once.
  | .write .. | .close _ => return ()
  | .notify subscriber => modify fun world => { world with notices := world.notices ++ [subscriber] }
  | .note line => modify fun world => { world with notes := world.notes ++ [line] }

/-- The next timer that fires by itself. -/
def dueTimer? (world : World) : Option Timer :=
  if world.selfFiring then world.client.timers.find? fun timer => !(Number.Amount.whole 0).below timer.delay
  else none

/-- The writer of a socket begins to send a text, or is done with the one that it sends. -/
def work (attempt : Nat) (world : World) : World :=
  if (world.post.writer attempt).sending.isNone then { world with post := world.post.take attempt }
  else if world.broken = some attempt then { world with post := world.post.lose attempt }
  else { world with post := world.post.deliver attempt }

/-- Carries out what is left to do, up to so many steps. -/
def settle : Nat → StateM World Unit
  | 0 => return ()
  | steps + 1 => do
    let world ← get
    match world.client.effects with
    | effect :: rest =>
      set { world with client := { world.client with effects := rest } }
      carryOut effect
      settle steps
    | [] =>
      if let some attempt := world.post.busy? then
        set (world.work attempt)
        settle steps
      else if let some timer := world.dueTimer? then
        act (fire timer)
        settle steps

/-- More steps than anything takes that comes to an end. -/
def patience : Nat := 100000

/-- The first timer that waits to be told to fire. -/
def waitingTimer? (world : World) : Option Timer :=
  if world.selfFiring then none else world.client.timers.head?

/-- Lets up to so many timers fire, the first ones first, and carries out what follows from each. -/
def fireAll : Nat → StateM World Unit
  | 0 => return ()
  | count + 1 => do
    if let some timer := (← get).waitingTimer? then
      act (fire timer)
      settle patience
      fireAll count

/-- Forgets what has arrived and was noted so far. -/
def turnPage (world : World) : World :=
  { world with post := { world.post with arrived := [] }, notes := [], notices := [] }

end World

end Retouch.Client
