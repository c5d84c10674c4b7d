import Retouch.Files.Path
import Retouch.Json.Writer

/-!
# Plain requests

What the server answers to requests that open no connection: a word about itself, and its health. Every
answer may be read by pages from anywhere.
-/
namespace Retouch.Service

structure Response where
  status : Nat
  body : Option String
  deriving DecidableEq, Repr

/-- A request that no page of the server answers. -/
inductive HttpFault where
  | notFound
  | methodNotAllowed
  deriving DecidableEq, Repr

def banner : String := "Alara Dev Server"
def healthPath : String := "/health"
def socketPath : String := "/ws"

/-- The headers of every answer. -/
def corsHeaders : List (String × String) :=
  [("Access-Control-Allow-Origin", "*"), ("Access-Control-Allow-Methods", "GET, POST, OPTIONS"),
    ("Access-Control-Allow-Headers", "Content-Type")]

def healthText (root : Files.Path) : String :=
  (Json.obj [("status", .str "ok"), ("projectDir", .str root.toText)]).write

/-- The page of a path. -/
def page? (root : Files.Path) (path : String) : Option Response :=
  if path = "/" then some ⟨200, some banner⟩
  else if path = healthPath then some ⟨200, some (healthText root)⟩
  else if path = socketPath then some ⟨400, some "WebSocket upgrade failed"⟩
  else none

/-- The path of an address, without its query. -/
def pathOf (address : String) : String :=
  String.ofList (address.toList.takeWhile fun c => c ≠ '?' && c ≠ '#')

/-- The answer to a request. -/
def respond (root : Files.Path) (method path : String) : Except HttpFault Response :=
  if method = "OPTIONS" then .ok ⟨200, none⟩
  else match page? root path with
    | none => .error .notFound
    | some response =>
      if method = "GET" ∨ method = "HEAD" then .ok response else .error .methodNotAllowed

end Retouch.Service
