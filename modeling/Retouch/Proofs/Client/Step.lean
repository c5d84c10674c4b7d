import Retouch.Proofs.Client.Desk

/-!
# What a step of the user can do

The user of a page clicks, types, presses keys and moves the focus, and timers fire meanwhile. Of what matters
to the edit of a text, a step can change only a few things, and only in a few ways. These are listed once, so
that whatever is kept by all of them is kept by every step, and so by every run.

## Main statements

* `turn_after`: every step of the user is one of the turns on the list.
* `run_keeps`: what every turn keeps holds after a run.
-/
namespace Retouch.Client

/-- What happens to a page while the client follows it. -/
inductive Doing where
  | event (e : Event)
  | focus (target : Option ElementId)
  | type (id : ElementId) (text : String)
  /-- The timer of a number fires, if it is set. -/
  | fire (number : Nat)
  deriving DecidableEq, Repr

def Doing.action : Doing → Action Unit
  | .event e => discard (dispatch standardBehaviors e)
  | .focus target => moveFocus standardBehaviors target
  | .type id text => setText id text
  | .fire number => do
    if let some timer := (← get).timers.find? fun timer => timer.number = number then
      Client.fire timer

/-- A step, after all that was asked of the surroundings before has been done. -/
def Doing.after (doing : Doing) (client : Client) : Client :=
  Client.after { client with effects := [] } doing.action

/-- The element on which a step opens an edit. -/
def opens? (client : Client) : Doing → Option ElementId
  | .event (.doubleClick target) =>
    if client.listening then (placedElement? client.tree target).filter client.tree.isTextual else none
  | _ => none

/-- Whether a step is one that commits the edit of a text: the enter key, or a timer. -/
def Doing.isCommit : Doing → Bool
  | .event (.keyDown key) => key.name = "Enter"
  | .fire _ => true
  | _ => false

/-- What a step can do. -/
inductive Turn (client : Client) : Doing → Desk → Prop where
  | rest (doing : Doing) (unopened : client.opens? doing = none) : Turn client doing client.desk
  | typed (id : ElementId) (text : String) :
    Turn client (.type id text) { client.desk with tree := client.tree.setText id text }
  | pruned (number : Nat) (edit : String) :
    Turn client (.fire number) { client.desk with edits := client.edits.drop edit }
  | selected (target : Option ElementId) (id : ElementId) (other : isEdited client id = false) :
    Turn client (.event (.click target))
      { client.desk.canceled with selected := some ⟨id, elementTarget client.tree id⟩ }
  | cleared (target : Option ElementId) :
    Turn client (.event (.click target)) { client.desk.canceled with selected := none }
  | opened (doing : Doing) (id : ElementId) (opens : client.opens? doing = some id) :
    Turn client doing (client.desk.opened id)
  | canceled (key : Key) (escape : key.name = "Escape") :
    Turn client (.event (.keyDown key)) client.desk.canceled
  | committed (doing : Doing) (commits : doing.isCommit) (session : Session)
      (edited : client.session = some session) :
    Turn client doing (client.committed session)

section steps

variable (client : Client)

theorem after_dispatch {event : Event} (listening : client.listening = true) :
    client.after (discard (dispatch standardBehaviors event)) =
      client.after (handle standardBehaviors event) := by
  simp [dispatch, listening]

theorem turn_clicked (target : Option ElementId) :
    Turn client (.event (.click target)) (client.after (clicked standardBehaviors target)).desk := by
  unfold clicked
  simp only [after_bind, after_get, said_get, behaviorOf?_standard]
  split
  · exact .rest _ rfl
  · split
    · simp only [after_bind, after_pure, desk_clearSelection]
      exact .cleared target
    · rename_i id _
      split
      · exact .rest _ rfl
      · rename_i other
        have other : isEdited client id = false := by simpa using other
        -- No behavior of every editor takes a click, so the element is selected in either case.
        cases textual : client.tree.isTextual id <;>
          simp only [textEditing, Bool.false_eq_true, if_false, if_true, after_bind, after_pure, said_pure,
            Bool.not_false, after_get, said_get] <;>
          rw [desk_select client id other] <;>
          exact .selected target id other

theorem turn_doubleClicked (target : Option ElementId) (listening : client.listening = true) :
    Turn client (.event (.doubleClick target))
      (client.after (doubleClicked standardBehaviors target)).desk := by
  unfold doubleClicked
  simp only [after_bind, after_get, said_get, behaviorOf?_standard]
  split
  · rename_i unplaced
    exact .rest _ (by simp [opens?, unplaced])
  · rename_i id placed
    cases textual : client.tree.isTextual id with
    | false => exact .rest _ (by simp [opens?, placed, textual, Option.filter_some])
    | true =>
      simp only [textEditing, if_true, after_bind, after_pure, desk_openElement]
      exact .opened _ id (by simp [opens?, placed, textual, listening, Option.filter_some])

theorem turn_keyPressed (key : Key) :
    Turn client (.event (.keyDown key)) (client.after (keyPressed standardBehaviors key)).desk := by
  unfold keyPressed
  simp only [after_bind, after_get, said_get, behaviorOf?_standard]
  split
  · exact .rest _ rfl
  · rename_i session edited
    cases textual : client.tree.isTextual session.element with
    | false => exact .rest _ rfl
    | true =>
      simp only [textEditing, if_true, after_bind, after_get, said_get]
      split
      · exact .rest _ rfl
      · split
        · rename_i enter
          simp only [after_bind, after_pure, desk_commitElement client edited]
          exact .committed _ (by simpa [Doing.isCommit] using (by simpa using enter : _ ∧ _).1) session edited
        · split
          · rename_i escape
            simp only [after_bind, after_pure, desk_cancelEditing]
            exact .canceled key escape
          · exact .rest _ rfl

theorem isEdited_iff (id : ElementId) :
    isEdited client id = true ↔ ∃ session, client.session = some session ∧ session.element = id := by
  cases edited : client.session with
  | none => simp [isEdited, edited]
  | some session => simp [isEdited, edited]

theorem committed_cancel (number : Nat) (session : Session) :
    (client.after (cancel number)).committed session = client.committed session := by
  have sends : (client.after (cancel number)).request? session = client.request? session := rfl
  have tree : (client.after (cancel number)).tree = client.tree := rfl
  unfold committed
  rw [sends, tree]
  cases client.request? session (client.tree.textOf session.element) <;> rfl

theorem turn_fire (number : Nat) (timer : Timer) :
    Turn client (.fire number) (client.after (fire timer)).desk := by
  unfold fire
  rw [after_bind]
  have rests : (client.after (cancel timer.number)).desk = client.desk := restful_cancel timer.number client
  cases timer.task with
  | commit id =>
    unfold runTask
    simp only [after_bind, after_get, said_get]
    split
    · rename_i still
      obtain ⟨session, edited, rfl⟩ : ∃ session, client.session = some session ∧ session.element = id :=
        (isEdited_iff client id).mp still
      have edited' : (client.after (cancel timer.number)).session = some session := edited
      rw [desk_commitElement _ edited', committed_cancel]
      exact .committed _ rfl session edited
    · exact .rest _ rfl
  | prune edit =>
    unfold runTask removeEdit
    simp only [after_bind, after_get, said_get]
    split
    · rw [after_change, desk_notifying]
      exact .pruned number edit
    · exact .rest _ rfl
  | reconnect =>
    unfold runTask
    rw [restful_reconnect, rests]
    exact .rest _ rfl

theorem turn_handle (event : Event) (listening : client.listening = true) :
    Turn client (.event event) (client.after (handle standardBehaviors event)).desk := by
  cases event with
  | click target => exact turn_clicked client target
  | doubleClick target => exact turn_doubleClicked client target listening
  | mouseMove target =>
    rw [handle, after_bind, after_pure, restful_mouseMoved]
    exact .rest _ rfl
  | mouseLeave =>
    rw [handle, after_bind, after_pure, restful_clearHover]
    exact .rest _ rfl
  | keyDown key => exact turn_keyPressed client key
  | focusOut target went =>
    rw [handle, after_bind, after_pure, restful_focusLeft]
    exact .rest _ rfl

/-- Every step of the user is one of the turns on the list. -/
theorem turn_after (doing : Doing) :
    Turn { client with effects := [] } doing (doing.after client).desk := by
  unfold Doing.after
  generalize { client with effects := [] } = client
  cases doing with
  | event e =>
    cases listening : client.listening with
    | true =>
      rw [Doing.action, after_dispatch client listening]
      exact turn_handle client e listening
    | false =>
      have ignored : client.after (discard (dispatch standardBehaviors e)) = client := by
        simp [dispatch, listening]
      rw [Doing.action, ignored]
      exact .rest _ (by cases e <;> simp [opens?, listening])
  | focus target =>
    rw [Doing.action, restful_moveFocus]
    exact .rest _ rfl
  | type id text => exact .typed id text
  | fire number =>
    unfold Doing.action
    simp only [after_bind, after_get, said_get]
    split
    · exact turn_fire client number _
    · exact .rest _ rfl

end steps

/-! ### Steps that open and commit -/

theorem not_isCommit_of_opens {client : Client} {doing : Doing} {id : ElementId}
    (opens : client.opens? doing = some id) : doing.isCommit = false := by
  cases doing with
  | event e => cases e <;> first | rfl | cases opens
  | _ => cases opens

theorem opens?_of_isCommit {client : Client} {doing : Doing} (commits : doing.isCommit = true) :
    client.opens? doing = none := by
  cases opens : client.opens? doing with
  | none => rfl
  | some id =>
    rw [not_isCommit_of_opens opens] at commits
    cases commits

theorem there_of_opens {client : Client} {doing : Doing} {id : ElementId}
    (opens : client.opens? doing = some id) : (client.tree.get? id).isSome := by
  have textual : client.tree.isTextual id = true := by
    cases doing with
    | event e =>
      cases e with
      | doubleClick target =>
        simp only [opens?] at opens
        split at opens
        · exact (Option.filter_eq_some_iff.mp opens).2
        · cases opens
      | _ => cases opens
    | _ => cases opens
  unfold Tree.isTextual at textual
  cases found : client.tree.get? id with
  | none => rw [found] at textual; cases textual
  | some e => rfl

theorem Turn.eq_opened {client : Client} {doing : Doing} {after : Desk} (turn : Turn client doing after)
    {id : ElementId} (opens : client.opens? doing = some id) : after = client.desk.opened id := by
  cases turn with
  | rest _ unopened => rw [unopened] at opens; cases opens
  | opened _ id' opens' => rw [Option.some.inj (opens'.symm.trans opens)]
  | committed _ commits =>
    cases doing with
    | event e => cases e <;> first | cases opens | cases commits
    | _ => cases opens
  | _ => cases opens

/-! ### Runs -/

/-- What is left after all steps, one after another. -/
def run (page : Client) (doings : List Doing) : Client :=
  doings.foldl (fun client doing => doing.after client) page

/-- The client has just begun to follow the page. -/
structure Begun (page : Client) : Prop where
  listening : page.listening = true
  session : page.session = none
  selected : page.selected = none
  edits : page.edits = []

/-- A page with two headings, whose client is connected. -/
def twoHeadings : Client where
  tree := ⟨[{ tag := "body", children := [1, 2] },
    { tag := "h1", attributes := [("oid", "a.tsx:1:1")], text := "one", parent := some 0 },
    { tag := "h2", attributes := [("oid", "a.tsx:2:1")], text := "two", parent := some 0 }]⟩
  listening := true
  status := .connected
  channel := { started := 1, phases := [(0, .opened)], socket := some 0 }

/-- What every step keeps, and what was written before does not matter to, holds after a run. -/
theorem run_keeps {P : Desk → Prop} (speechless : ∀ desk, P desk → P { desk with lines := [] })
    (step : ∀ {client doing after}, Turn client doing after → P client.desk → P after)
    {page : Client} (start : P page.desk) (doings : List Doing) : P (run page doings).desk := by
  induction doings generalizing page with
  | nil => exact start
  | cons doing rest ih => exact ih (step (turn_after page doing) (speechless page.desk start))

end Retouch.Client
