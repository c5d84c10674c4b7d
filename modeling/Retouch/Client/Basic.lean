import Retouch.Client.Tree
import Retouch.Json.Writer
import Retouch.Locator
import Retouch.Number.Amount
import Retouch.Number.Notation

/-!
# The client of an editor

What the client of a page knows: the page with its focus and selected text, what the user points at and
edits, the edits that await an answer, and its connection to the server. An action changes this, tells all
subscribers of every change, and asks the surroundings for what it cannot do itself. Main statement:
`notified_change`, a change tells every subscriber once, in their order.
-/
namespace Retouch

namespace Client

structure Settings where
  url : String := "ws://localhost:4000/ws"
  /-- How often the client reconnects in a row at most. -/
  maxAttempts : Number.Amount := .whole 5
  /-- The seconds before the first one of several reconnects in a row; they double from then on. -/
  initialDelay : Number.Amount := .decimal 1.0
  maxDelay : Number.Amount := .decimal 10.0
  /-- The seconds for which an edit that was made remains on the list. -/
  pruneDelay : Number.Amount := .decimal 1.0
  deriving Repr

/-- The address of a server on this machine. -/
def serverUrl (port : String) : String := "ws://localhost:" ++ port ++ "/ws"

inductive Status where
  | disconnected
  | connecting
  | connected
  | error
  deriving DecidableEq, Repr

namespace Status

def name : Status → String
  | .disconnected => "disconnected"
  | .connecting => "connecting"
  | .connected => "connected"
  | .error => "error"

def ofName? (name : String) : Option Status :=
  [disconnected, connecting, connected, error].find? fun status => status.name == name

end Status

structure Selected where
  element : ElementId
  target : Option SourceLocator
  deriving DecidableEq, Repr

/-- An element whose text is being edited, with the text and the locator it had before. -/
structure Session where
  element : ElementId
  prior : String
  oid : String
  deriving DecidableEq, Repr

inductive Outcome where
  | pending
  | committed
  | failed
  deriving DecidableEq, Repr

def Outcome.name : Outcome → String
  | .pending => "pending"
  | .committed => "committed"
  | .failed => "failed"

/-- An edit that was sent, and what is known of its outcome. -/
structure Edit where
  type : String
  target : SourceLocator
  timestamp : Float
  outcome : Outcome := .pending
  error : Json := .null

/-- Characters of the text of an element that are selected. -/
structure Range where
  element : ElementId
  start : Nat
  stop : Nat
  deriving DecidableEq, Repr

/-- What is put off until later. -/
inductive Task where
  /-- To commit the edit of an element that lost the focus. -/
  | commit (element : ElementId)
  /-- To take an edit off the list. -/
  | prune (edit : String)
  | reconnect
  deriving DecidableEq, Repr

structure Timer where
  number : Nat
  delay : Number.Amount
  task : Task
  deriving Repr

/-- How far an attempt to connect has come, while it is not over. -/
inductive Phase where
  | connecting
  | opened
  deriving DecidableEq, Repr

/-- The connection to the server. -/
structure Channel where
  /-- The reconnects in a row. -/
  attempts : Nat := 0
  /-- Whether the client itself has put an end to connecting. -/
  ended : Bool := false
  /-- The attempts to connect so far; each has its number. -/
  started : Nat := 0
  phases : Table Nat Phase := []
  /-- The attempt whose socket is in use. -/
  socket : Option Nat := none
  /-- The timer of the next reconnect. -/
  reconnect : Option Nat := none
  deriving DecidableEq, Repr

/-- What the client asks of its surroundings. -/
inductive Effect where
  /-- To open a socket for an attempt. -/
  | connect (attempt : Nat) (url : String)
  /-- To write to the socket of an attempt. -/
  | write (attempt : Nat) (text : String)
  /-- To give up an attempt, or to close its socket. -/
  | close (attempt : Nat)
  | notify (subscriber : Nat)
  /-- To keep a line that a behavior has written. -/
  | note (line : String)
  deriving DecidableEq, Repr

end Client

structure Client where
  settings : Client.Settings := {}
  tree : Client.Tree := {}
  /-- The element with the focus. -/
  focus : Option Client.ElementId := none
  range : Option Client.Range := none
  /-- Whether the client follows the events of the page. -/
  listening : Bool := false
  status : Client.Status := .disconnected
  statusError : Option String := none
  selected : Option Client.Selected := none
  hovered : Option Client.ElementId := none
  session : Option Client.Session := none
  edits : Table String Client.Edit := []
  /-- How many edits were sent so far. -/
  sent : Nat := 0
  channel : Client.Channel := {}
  timers : List Client.Timer := []
  timersSet : Nat := 0
  subscribers : List Nat := []
  subscriptions : Nat := 0
  /-- The time in milliseconds. -/
  now : Nat := 0
  /-- What is asked of the surroundings, in order. -/
  effects : List Client.Effect := []

namespace Client

abbrev Action (α : Type) := StateM Client α

/-- A change that the subscribers are told of. -/
def notifying (client : Client) : Client :=
  { client with effects := client.effects ++ client.subscribers.map .notify }

/-- Changes what the client knows, and tells all subscribers. -/
def change (f : Client → Client) : Action Unit := modify fun client => notifying (f client)

/-- The subscribers that are to be told something, in order. -/
def notified (effects : List Effect) : List Nat :=
  effects.filterMap fun
    | .notify subscriber => some subscriber
    | _ => none

/-- A change tells every subscriber once, in their order. -/
theorem notified_change (f : Client → Client) (client : Client) :
    notified ((change f).run client).2.effects =
      notified (f client).effects ++ (f client).subscribers := by
  have each : ∀ numbers : List Nat, notified (numbers.map .notify) = numbers := by
    intro numbers
    induction numbers with
    | nil => rfl
    | cons n rest ih =>
      simp only [notified] at ih
      simp [notified, ih]
  have split : ∀ xs ys : List Effect, notified (xs ++ ys) = notified xs ++ notified ys :=
    fun xs ys => List.filterMap_append
  exact (split _ _).trans (congrArg _ (each _))

def emit (effect : Effect) : Action Unit :=
  modify fun client => { client with effects := client.effects ++ [effect] }

def subscribe : Action Nat := do
  let client ← get
  set { client with
    subscribers := client.subscribers ++ [client.subscriptions]
    subscriptions := client.subscriptions + 1 }
  return client.subscriptions

def unsubscribe (subscriber : Nat) : Action Unit :=
  modify fun client => { client with subscribers := client.subscribers.erase subscriber }

/-! ## Timers -/

/-- Puts something off; gives the number of the timer. -/
def schedule (delay : Number.Amount) (task : Task) : Action Nat := do
  let client ← get
  let timer : Timer := ⟨client.timersSet, delay, task⟩
  set { client with
    timers := client.timers ++ [timer]
    timersSet := client.timersSet + 1 }
  return client.timersSet

def cancel (timer : Nat) : Action Unit :=
  modify fun client => { client with timers := client.timers.filter fun t => t.number ≠ timer }

/-- Forgets all timers and subscribers. -/
def dispose : Action Unit := modify fun client => { client with timers := [], subscribers := [] }

/-! ## Messages -/

def setStatus (status : Status) (error : Option String) : Action Unit :=
  change fun client => { client with status, statusError := error }

def isConnected (client : Client) : Bool := client.channel.socket.isSome && client.status = .connected

/-- Writes a message to the socket; says whether there is one. -/
def write (message : Json) : Action Bool := do
  match (← get).channel.socket with
  | none => return false
  | some attempt =>
    emit (.write attempt message.write)
    return true

/-- Sends a message while the client is connected; says whether it is. -/
def send (message : Json) : Action Bool := do
  if isConnected (← get) then write message else return false

end Client

end Retouch
