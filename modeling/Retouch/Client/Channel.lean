import Retouch.Client.Edits
import Retouch.Json.Reader

/-!
# The connection of a client

The client asks for a socket and is told what became of the attempt. When an attempt fails, or a socket
closes without having been asked to, the client reconnects after a delay that doubles each time, until it
has tried often enough. What the server says about an edit is noted on the list of edits.
-/
namespace Retouch.Client

/-! ## Connecting -/

def setPhase (attempt : Nat) (phase : Phase) : Action Unit :=
  modify fun client => { client with
    channel := { client.channel with phases := client.channel.phases.put attempt phase } }

def endPhase (attempt : Nat) : Action Unit :=
  modify fun client => { client with
    channel := { client.channel with phases := client.channel.phases.drop attempt } }

def phase? (client : Client) (attempt : Nat) : Option Phase := client.channel.phases.get? attempt

/-- Starts an attempt to connect, unless the client has put an end to connecting; says whether it did. -/
def connect : Action Bool := do
  if (← get).channel.ended then return false
  setStatus .connecting none
  let client ← get
  let attempt := client.channel.started
  set { client with channel := { client.channel with started := attempt + 1 } }
  setPhase attempt .connecting
  emit (.connect attempt client.settings.url)
  return true

/-- The seconds before the next reconnect, if they can be computed. -/
def reconnectDelay? (settings : Settings) (attempts : Nat) : Option Number.Amount :=
  (settings.initialDelay.doubled? attempts).map (·.smaller settings.maxDelay)

/-- Puts a reconnect off; there is none when its delay cannot be computed or told. -/
def scheduleReconnect : Action Unit := do
  let client ← get
  if let some delay := reconnectDelay? client.settings client.channel.attempts then
    if delay.hasFloat then
      let timer ← schedule delay .reconnect
      modify fun client => { client with channel := { client.channel with reconnect := some timer } }

/-- Says that there is no connection, and reconnects if that was not tried too often. -/
def retry (reason : Option String) : Action Unit := do
  let client ← get
  if (Number.Amount.whole client.channel.attempts).below client.settings.maxAttempts then
    setStatus .disconnected reason
    scheduleReconnect
  else setStatus .error (some "Unable to connect to Alara server")

/-- Carries out a reconnect that was put off. -/
def reconnect : Action Unit := do
  modify fun client => { client with
    channel := { client.channel with reconnect := none, attempts := client.channel.attempts + 1 } }
  discard connect

/-- The attempt to connect has led to a socket. -/
def opened (attempt : Nat) : Action Unit := do
  let client ← get
  if phase? client attempt = some .connecting then
    if client.channel.ended then
      endPhase attempt
      emit (.close attempt)
    else
      setPhase attempt .opened
      modify fun client => { client with
        channel := { client.channel with socket := some attempt, attempts := 0 } }
      setStatus .connected none

/-- The attempt to connect has failed. -/
def refused (attempt : Nat) : Action Unit := do
  if phase? (← get) attempt = some .connecting then
    endPhase attempt
    retry (some "Failed to create connection")

/-- The socket of an attempt is closed. -/
def closed (attempt : Nat) : Action Unit := do
  if phase? (← get) attempt = some .opened then
    endPhase attempt
    modify fun client => { client with channel := { client.channel with socket := none } }
    if (← get).channel.ended then setStatus .disconnected none
    else retry none

/-- Gives up the last attempt, if it has not led to anything yet. -/
def giveUp : Action Unit := do
  let client ← get
  if client.channel.started ≠ 0 then
    let attempt := client.channel.started - 1
    if phase? client attempt = some .connecting then
      endPhase attempt
      emit (.close attempt)

/-- Puts an end to connecting. -/
def close : Action Unit := do
  modify fun client => { client with channel := { client.channel with ended := true } }
  if let some timer := (← get).channel.reconnect then
    cancel timer
    modify fun client => { client with channel := { client.channel with reconnect := none } }
  match (← get).channel.socket with
  | some attempt =>
    emit (.close attempt)
    closed attempt
  | none => giveUp
  setStatus .disconnected none

/-! ## Frames of the server -/

/-- A frame for which the client has no answer. -/
inductive FrameFault where
  | tooDeep
  /-- The id of the request is a list or an object. -/
  | unusableId (kind : String)
  /-- The error is no object. -/
  | errorNotObject
  deriving DecidableEq, Repr

/-- What a result says about an edit. -/
inductive Verdict where
  | committed
  | failed (error : Json)

/-- The edit that an id names, if it is a text. -/
def namedEdit (id : Json) : Except FrameFault (Option String) :=
  match Wire.lookupFault? id with
  | some kind => .error (.unusableId kind)
  | none => .ok id.asString?

/-- The message of an error, as a result carries it. -/
def errorMessage (error : Json) : Except FrameFault Json :=
  if !error.isTruthy then .ok (.str "Unknown error")
  else match error with
    | .obj members => .ok ((members.lookup "message").getD (.str "Unknown error"))
    | _ => .error .errorNotObject

def verdictOf (result : Json.Members) : Except FrameFault Verdict := do
  if ((result.lookup "success").getD .null).isTruthy then return .committed
  else return .failed (← errorMessage ((result.lookup "error").getD .null))

/-- What a result says about which edit. -/
def readResult (result : Json.Members) : Except FrameFault (Option (String × Verdict)) := do
  let id := (result.lookup "requestId").getD .null
  if !id.isTruthy then return none
  else
    let verdict ← verdictOf result
    return (← namedEdit id).map (·, verdict)

/-- What a frame says about which edit. -/
def readFrame (frame : String) : Except FrameFault (Option (String × Verdict)) :=
  match Json.read frame with
  | .error e => if e.fault = .tooDeep then .error .tooDeep else .ok none
  | .ok (.obj members) =>
    if Json.Members.says members "type" "transform-result" then readResult members else .ok none
  | .ok _ => .ok none

def mark (id : String) : Verdict → Action Unit
  | .committed => markCommitted id
  | .failed error => markFailed id error

/-- Takes a frame of the server. -/
def takeFrame (frame : String) : Action (Except FrameFault Unit) := do
  match readFrame frame with
  | .error e => return .error e
  | .ok none => return .ok ()
  | .ok (some (id, verdict)) =>
    mark id verdict
    return .ok ()

/-- Takes a frame from the socket of an attempt, which is left when there is no answer. -/
def received (attempt : Nat) (frame : String) : Action Unit := do
  if phase? (← get) attempt = some .opened then
    if let .error _ ← takeFrame frame then closed attempt

end Retouch.Client
