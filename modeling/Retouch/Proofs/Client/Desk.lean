import Retouch.Client.Events
import Retouch.Client.Outbound

/-!
# What matters to the edit of a text

Of all that the client knows, only a part has to do with the texts that are edited: the page, the session, the
selection, the edits that were sent and what is written to the socket. Each action does one thing to this part,
or nothing at all.

## Main statements

* `desk_cancelEditing`, `desk_commitElement`, `desk_openElement`, `desk_select`: what becomes of that part.
* `restful_moveFocus`, `restful_mouseMoved`, `restful_reconnect`: actions that leave it alone.
-/
namespace Retouch.Client

/-- What an action leaves behind. -/
def after {α : Type} (client : Client) (action : Action α) : Client := (action.run client).2

/-- What an action gives. -/
def said {α : Type} (client : Client) (action : Action α) : α := (action.run client).1

/-! ### What matters to the edit of a text -/

/-- What the client knows of the page, the selection and the edits, with what it has written. -/
structure Desk where
  listening : Bool
  tree : Tree
  session : Option Session
  selected : Option Selected
  edits : Table String Edit
  sent : Nat
  lines : List (Nat × String)

def desk (client : Client) : Desk :=
  { listening := client.listening, tree := client.tree, session := client.session
    selected := client.selected, edits := client.edits, sent := client.sent
    lines := written client.effects }

section fields

variable (client : Client)

@[simp] theorem desk_listening : client.desk.listening = client.listening := rfl
@[simp] theorem desk_tree : client.desk.tree = client.tree := rfl
@[simp] theorem desk_session : client.desk.session = client.session := rfl
@[simp] theorem desk_selected : client.desk.selected = client.selected := rfl
@[simp] theorem desk_edits : client.desk.edits = client.edits := rfl
@[simp] theorem desk_sent : client.desk.sent = client.sent := rfl
@[simp] theorem desk_lines : client.desk.lines = written client.effects := rfl

end fields

/-- Marks an element as one whose text is being edited. -/
def Tree.mark (tree : Tree) (id : ElementId) : Tree :=
  (tree.update id fun e => { e with editable := true }).update id fun e =>
    { e with dataset := e.dataset.put editingKey "true" }

def Tree.unmark (tree : Tree) (id : ElementId) : Tree :=
  tree.update id fun e => { e with editable := false, dataset := e.dataset.drop editingKey }

/-- Whether the text of an element can be edited. -/
def Tree.isTextual (tree : Tree) (id : ElementId) : Bool := (tree.get? id).any isTextEditable

namespace Desk

/-- The text of the element that is being edited is put back. -/
def canceled (desk : Desk) : Desk :=
  match desk.session with
  | some session => { desk with
      tree := (desk.tree.setText session.element session.prior).unmark session.element
      session := none }
  | none => desk

def opened (desk : Desk) (id : ElementId) : Desk := { desk with
  tree := desk.tree.mark id
  session := some ⟨id, desk.tree.textOf id, (desk.tree.attribute? id placeAttribute).getD ""⟩ }

end Desk

/-- The request that is sent when the edit of a text is committed: there is one if something with a place in
the sources is selected and the text has changed. -/
def request? (client : Client) (session : Session) (new : String) : Option Request :=
  match client.selected with
  | some ⟨_, some target⟩ =>
    if new = session.prior then none
    else some ⟨editId client.now (client.sent + 1), target, .textUpdate session.prior new⟩
  | _ => none

/-- How a request that is sent now is kept until it is answered. -/
def pendingEdit (client : Client) (request : Request) : Edit :=
  { type := request.change.kind.name, target := request.target, timestamp := seconds client.now }

/-- What is written for a request. -/
def linesFor (client : Client) (request : Request) : List (Nat × String) :=
  match client.channel.socket with
  | some attempt =>
    if client.status = .connected then [(attempt, (requestMessage request).write)] else []
  | none => []

/-- What is left when a request, if there is one, is kept and written. -/
def sentDesk (client : Client) : Option Request → Desk
  | none => client.desk
  | some request => { client.desk with
    edits := client.edits.put request.id (client.pendingEdit request)
    sent := client.sent + 1
    lines := client.desk.lines ++ client.linesFor request }

/-- What is left after the edit of a text was committed. -/
def committed (client : Client) (session : Session) : Desk :=
  { client.sentDesk (client.request? session (client.tree.textOf session.element)) with
    tree := client.tree.unmark session.element
    session := none }

/-! ### Actions one by one -/

section actions

variable {α β : Type} (client : Client)

@[simp] theorem after_bind (action : Action α) (next : α → Action β) :
    client.after (action >>= next) = (client.after action).after (next (client.said action)) := (rfl)

@[simp] theorem after_pure (a : α) : client.after (pure a : Action α) = client := (rfl)

@[simp] theorem said_pure (a : α) : client.said (pure a : Action α) = a := (rfl)

@[simp] theorem after_get : client.after (get : Action Client) = client := (rfl)

@[simp] theorem said_get : client.said (get : Action Client) = client := (rfl)

@[simp] theorem after_modify (f : Client → Client) : client.after (modify f) = f client := (rfl)

@[simp] theorem after_set (other : Client) : client.after (set other : Action Unit) = other := (rfl)

@[simp] theorem after_discard (action : Action α) :
    client.after (discard action) = client.after action := (rfl)

@[simp] theorem after_map (f : α → β) (action : Action α) :
    client.after (f <$> action) = client.after action := (rfl)

@[simp] theorem after_change (f : Client → Client) :
    client.after (change f) = notifying (f client) := (rfl)

theorem written_append (first second : List Effect) :
    written (first ++ second) = written first ++ written second := List.filterMap_append

theorem written_notify (subscribers : List Nat) :
    written (subscribers.map .notify) = [] := by
  simp [written, List.filterMap_map]

/-- The subscribers do not matter. -/
@[simp] theorem desk_notifying : (notifying client).desk = client.desk := by
  simp [desk, notifying, written_append, written_notify]

theorem desk_cancelEditing : (client.after cancelEditing).desk = client.desk.canceled := by
  cases edited : client.session with
  | none =>
    simp [cancelEditing, endSession, edited, Desk.canceled]
    simp [desk, edited]
  | some session =>
    simp [cancelEditing, endSession, edited, Desk.canceled]
    rfl

@[simp] theorem session_canceled (desk : Desk) : desk.canceled.session = none := by
  cases edited : desk.session <;> simp [Desk.canceled, edited]

/-- Where no text is edited there is nothing to put back. -/
theorem canceled_idle (idle : client.session = none) : client.desk.canceled = client.desk := by
  simp [Desk.canceled, idle]

theorem desk_select (id : ElementId) (other : isEdited client id = false) (target : Option SourceLocator) :
    (client.after (select id target)).desk =
      { client.desk.canceled with selected := some ⟨id, target⟩ } := by
  cases edited : client.session with
  | none =>
    simp [select, edited, canceled_idle]
    rfl
  | some session =>
    have apart : ¬session.element = id := by simpa [isEdited, edited] using other
    have ended : (client.after (select id target)).desk =
        { (client.after cancelEditing).desk with selected := some ⟨id, target⟩, session := none } := by
      simp [select, edited, apart, Option.filter_some]
      rfl
    rw [ended, desk_cancelEditing, ← session_canceled client.desk]

theorem desk_clearSelection :
    (client.after clearSelection).desk = { client.desk.canceled with selected := none } := by
  cases edited : client.session with
  | none =>
    simp [clearSelection, edited, canceled_idle]
    rfl
  | some session =>
    have ended : (client.after clearSelection).desk =
        { (client.after cancelEditing).desk with selected := none, session := none } := by
      simp [clearSelection, edited]
      rfl
    rw [ended, desk_cancelEditing, ← session_canceled client.desk]

theorem desk_write (attempt : Nat) (text : String) :
    (client.after (emit (.write attempt text))).desk =
      { client.desk with lines := client.desk.lines ++ [(attempt, text)] } := by
  have lines : written (client.effects ++ [.write attempt text]) =
      written client.effects ++ [(attempt, text)] := written_append _ _
  simp only [emit, after_modify, desk, lines]

/-- A message is written when there is a socket to write it to. -/
theorem desk_send (request : Request) :
    (client.after (send (requestMessage request))).desk =
      { client.desk with lines := client.desk.lines ++ client.linesFor request } := by
  cases socket : client.channel.socket with
  | none =>
    simp [send, linesFor, isConnected, socket]
    rfl
  | some attempt =>
    by_cases connected : client.status = .connected
    · simp [send, linesFor, write, isConnected, connected, socket, desk_write]
    · simp [send, linesFor, isConnected, connected, socket]
      rfl

theorem desk_endSession : (client.after endSession).desk = { client.desk with session := none } := by
  unfold endSession
  rw [after_change, desk_notifying]
  rfl

theorem desk_putEdit (id : String) (edit : Edit) :
    (client.after (putEdit id edit)).desk = { client.desk with edits := client.edits.put id edit } := by
  unfold putEdit
  rw [after_change, desk_notifying]
  rfl

/-- To keep an edit changes nothing about the socket. -/
theorem linesFor_putEdit (id : String) (edit : Edit) :
    (client.after (putEdit id edit)).linesFor = client.linesFor := (rfl)

theorem desk_commitEditing {session : Session} (edited : client.session = some session) (new : String) :
    (client.after (commitEditing new)).desk =
      { client.sentDesk (client.request? session new) with session := none } := by
  cases chosen : client.selected with
  | none => simp [commitEditing, request?, sentDesk, edited, chosen, desk_endSession]
  | some selected =>
    obtain ⟨element, target⟩ := selected
    cases target with
    | none => simp [commitEditing, request?, sentDesk, edited, chosen, desk_endSession]
    | some target =>
      by_cases same : new = session.prior
      · simp [commitEditing, request?, sentDesk, edited, chosen, same, desk_endSession]
      · have sends : client.request? session new =
            some ⟨editId client.now (client.sent + 1), target, .textUpdate session.prior new⟩ := by
          simp [request?, chosen, same]
        rw [sends]
        unfold commitEditing
        simp only [after_bind, after_get, said_get, edited, chosen, same, if_false, after_modify, after_pure,
          desk_endSession, desk_send, desk_putEdit, linesFor_putEdit]
        simp [sentDesk, pendingEdit, linesFor, chosen]

/-- The marks of an element do not matter to what is sent. -/
theorem sentDesk_closeElement (id : ElementId) (request : Option Request) :
    (client.after (closeElement id)).sentDesk request =
      { client.sentDesk request with tree := client.tree.unmark id } := by
  cases request with
  | none => rfl
  | some request => rfl

theorem desk_commitElement {session : Session} (edited : client.session = some session) :
    (client.after (commitElement session.element)).desk = client.committed session := by
  unfold commitElement
  simp only [after_bind, after_get, said_get, after_discard]
  have still : (client.after (closeElement session.element)).session = some session := edited
  rw [desk_commitEditing _ still, sentDesk_closeElement]
  rfl

/-! ### Actions that rest -/

/-- An action that changes nothing that matters to the edit of a text. -/
def Restful (action : Action α) : Prop := ∀ client : Client, (client.after action).desk = client.desk

theorem Restful.bind {action : Action α} {next : α → Action β} (first : Restful action)
    (second : ∀ a, Restful (next a)) : Restful (action >>= next) := fun client => by
  rw [after_bind, second, first]

theorem restful_schedule (delay : Number.Amount) (task : Task) : Restful (schedule delay task) := fun _ => rfl

theorem restful_cancel (timer : Nat) : Restful (cancel timer) := fun _ => rfl

theorem restful_clearHover : Restful clearHover := fun client => by
  unfold clearHover
  rw [after_change, desk_notifying]
  rfl

theorem restful_hover (id : ElementId) : Restful (hover id) := fun client => by
  unfold hover
  simp only [after_bind, after_get, said_get]
  split
  · rfl
  · split
    · split
      · exact restful_clearHover client
      · rfl
    · rw [after_change, desk_notifying]
      rfl

theorem restful_mouseMoved (target : Option ElementId) : Restful (mouseMoved target) := fun client => by
  unfold mouseMoved
  simp only [after_bind, after_get, said_get]
  split
  · split
    · split
      · exact restful_hover _ client
      · rfl
    · split
      · exact restful_clearHover client
      · rfl
  · rfl

theorem restful_askSocket (attempt : Nat) (url : String) : Restful (emit (.connect attempt url)) := by
  intro client
  have lines : written (client.effects ++ [.connect attempt url]) = written client.effects := by
    rw [written_append]
    exact List.append_nil _
  simp only [emit, after_modify, desk, lines]

theorem restful_setStatus (status : Status) (error : Option String) : Restful (setStatus status error) := by
  intro client
  unfold setStatus
  rw [after_change, desk_notifying]
  rfl

theorem restful_setPhase (attempt : Nat) (phase : Phase) : Restful (setPhase attempt phase) := fun _ => rfl

theorem restful_connect : Restful connect := fun client => by
  unfold connect
  simp only [after_bind, after_get, said_get]
  split
  · rfl
  · simp only [after_bind, after_get, said_get, after_set, after_pure]
    rw [restful_askSocket, restful_setPhase]
    exact restful_setStatus .connecting none client

theorem restful_reconnect : Restful reconnect := fun client => by
  unfold reconnect
  simp only [after_bind, after_modify, after_discard]
  exact restful_connect _

/-! ### Behaviors of every editor -/

theorem behaviorOf?_standard (tree : Tree) (id : ElementId) :
    behaviorOf? standardBehaviors tree id = if tree.isTextual id then some textEditing else none := by
  unfold behaviorOf? Tree.isTextual
  cases found : tree.get? id with
  | none => rfl
  | some e =>
    cases textual : isTextEditable e with
    | true => simp [Behaviors.primary?, standardBehaviors, textEditing, textual]
    | false => simp [Behaviors.primary?, standardBehaviors, textEditing, textual]

theorem restful_focusLeft (target went : Option ElementId) :
    Restful (focusLeft standardBehaviors target went) := fun client => by
  unfold focusLeft
  simp only [after_bind, after_get, said_get, behaviorOf?_standard]
  split
  · split
    · split
      · rename_i textual
        split at textual
        · cases textual
          simp only [textEditing, after_bind, after_get, said_get]
          split
          · exact restful_schedule _ _ client
          · rfl
        · cases textual
      · rfl
    · rfl
  · rfl

theorem restful_moveFocus (target : Option ElementId) :
    Restful (moveFocus standardBehaviors target) := fun client => by
  unfold moveFocus
  simp only [after_bind, after_get, said_get]
  split
  · simp only [after_bind, after_set]
    split
    · exact restful_focusLeft _ _ _
    · rfl
  · rfl

theorem desk_startEditing (session : Session) :
    (client.after (startEditing session)).desk = { client.desk with session := some session } := by
  unfold startEditing
  rw [after_change, desk_notifying]
  rfl

theorem desk_openElement (id : ElementId) :
    (client.after (openElement (fun other => moveFocus standardBehaviors (some other)) id)).desk =
      client.desk.opened id := by
  unfold openElement
  simp only [after_bind, after_get, said_get, after_modify]
  have update (before : Client) (f : Element → Element) :
      { before with tree := before.tree.update id f }.desk =
        { before.desk with tree := before.desk.tree.update id f } := rfl
  have range (before : Client) (range : Option Range) : { before with range }.desk = before.desk := rfl
  rw [update, desk_startEditing, range, restful_moveFocus, update]
  rfl

end actions

/-! ### Fields -/

@[simp] theorem selected_canceled (desk : Desk) : desk.canceled.selected = desk.selected := by
  cases edited : desk.session <;> simp [Desk.canceled, edited]

@[simp] theorem lines_canceled (desk : Desk) : desk.canceled.lines = desk.lines := by
  cases edited : desk.session <;> simp [Desk.canceled, edited]

@[simp] theorem edits_canceled (desk : Desk) : desk.canceled.edits = desk.edits := by
  cases edited : desk.session <;> simp [Desk.canceled, edited]

@[simp] theorem sent_canceled (desk : Desk) : desk.canceled.sent = desk.sent := by
  cases edited : desk.session <;> simp [Desk.canceled, edited]

section committed

variable (client : Client) (session : Session)

@[simp] theorem tree_committed : (client.committed session).tree = client.tree.unmark session.element := rfl

@[simp] theorem session_committed : (client.committed session).session = none := rfl

@[simp] theorem selected_committed : (client.committed session).selected = client.selected := by
  unfold committed
  cases client.request? session (client.tree.textOf session.element) <;> rfl

end committed

theorem request?_eq_some {client : Client} {session : Session} {new : String} {request : Request}
    (sends : client.request? session new = some request) :
    new ≠ session.prior ∧ ∃ element target, client.selected = some ⟨element, some target⟩ ∧
      request = ⟨editId client.now (client.sent + 1), target, .textUpdate session.prior new⟩ := by
  unfold request? at sends
  split at sends
  · rename_i element target chosen
    split at sends
    · cases sends
    · rename_i changed
      exact ⟨changed, element, target, chosen, (Option.some.inj sends).symm⟩
  · cases sends

end Retouch.Client
