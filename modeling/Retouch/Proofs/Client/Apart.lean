import Retouch.Proofs.Client.Attention
import Retouch.Proofs.Client.Step

/-!
# Selected, pointed at and edited

The user of a page, the program around the client, timers and the network act on it in any order. Whatever comes, the
element that is pointed at is not the selected one, and nothing is pointed at while a text is edited; and a text is
edited just if there is an element whose text it is. The behaviors may be any that act on the client by its own
operations.

## Main statements

* `shifts_occurrence`: whatever happens to a client shifts the attention as its operations do.
* `apart_throughout`: the three stay apart in every run.
-/
namespace Retouch.Client

/-! ### Behaviors and events -/

/-- What a behavior does to the attention it does by the operations of the client. -/
structure Behavior.Attentive (behavior : Behavior) : Prop where
  clicked : ∀ id, Shifts (behavior.clicked id)
  doubleClicked : ∀ focus : ElementId → Action Unit, (∀ id, Shifts (focus id)) →
    ∀ id, Shifts (behavior.doubleClicked focus id)
  keyPressed : ∀ id key, Shifts (behavior.keyPressed id key)
  left : ∀ id went, Shifts (behavior.left id went)

def Behaviors.Attentive (behaviors : Behaviors) : Prop := ∀ behavior ∈ behaviors.ordered, behavior.Attentive

theorem attentive_standardBehaviors : standardBehaviors.Attentive := fun behavior member =>
  let keeps := framing_shifted.standardBehaviors behavior member
  ⟨keeps.clicked, keeps.doubleClicked, keeps.keyPressed, keeps.left⟩

theorem Behaviors.Attentive.keep {behaviors : Behaviors} (attentive : behaviors.Attentive) : behaviors.Keep Shifted :=
  fun behavior member =>
    let attends := attentive behavior member
    ⟨attends.clicked, attends.doubleClicked, attends.keyPressed, attends.left⟩

/-! ### Runs -/

/-- The operations of the client on what it knows. -/
inductive Operation where
  | select (element : ElementId) (target : Option SourceLocator)
  | clearSelection
  | hover (element : ElementId)
  | clearHover
  | startEditing (session : Session)
  | commitEditing (text : String)
  | cancelEditing
  | putEdit (id : String) (edit : Edit)
  | mark (id : String) (verdict : Verdict)
  | removeEdit (id : String)
  | setStatus (status : Status) (error : Option String)
  | send (message : Json)
  | subscribe
  | unsubscribe (subscriber : Nat)
  | dispose

def Operation.action : Operation → Action Unit
  | .select element target => Client.select element target
  | .clearSelection => Client.clearSelection
  | .hover element => Client.hover element
  | .clearHover => Client.clearHover
  | .startEditing session => Client.startEditing session
  | .commitEditing text => discard (Client.commitEditing text)
  | .cancelEditing => Client.cancelEditing
  | .putEdit id edit => Client.putEdit id edit
  | .mark id verdict => Client.mark id verdict
  | .removeEdit id => Client.removeEdit id
  | .setStatus status error => Client.setStatus status error
  | .send message => discard (Client.send message)
  | .subscribe => discard Client.subscribe
  | .unsubscribe subscriber => Client.unsubscribe subscriber
  | .dispose => Client.dispose

/-- What can happen to a client. -/
inductive Occurrence where
  | operation (operation : Operation)
  | event (event : Event)
  | focus (target : Option ElementId)
  | blur (element : ElementId)
  /-- The page changes by itself. -/
  | page (tree : Tree)
  /-- The timer of a number fires, if it is set. -/
  | fire (number : Nat)
  | time (now : Nat)
  | start
  | destroy
  | connect
  | close
  | opened (attempt : Nat)
  | refused (attempt : Nat)
  | closed (attempt : Nat)
  | received (attempt : Nat) (frame : String)

def Occurrence.action (behaviors : Behaviors) : Occurrence → Action Unit
  | .operation o => o.action
  | .event e => discard (dispatch behaviors e)
  | .focus target => moveFocus behaviors target
  | .blur element => Client.blur behaviors element
  | .page tree => modify fun client => { client with tree }
  | .fire number => do
    if let some timer := (← get).timers.find? fun timer => timer.number = number then
      Client.fire timer
  | .time now => modify fun client => { client with now }
  | .start => Client.start
  | .destroy => Client.destroy
  | .connect => discard Client.connect
  | .close => Client.close
  | .opened attempt => Client.opened attempt
  | .refused attempt => Client.refused attempt
  | .closed attempt => Client.closed attempt
  | .received attempt frame => Client.received attempt frame

/-- What is left after all that has happened, one thing after another. -/
def through (behaviors : Behaviors) (client : Client) (occurrences : List Occurrence) : Client :=
  occurrences.foldl (fun client occurrence => client.after (occurrence.action behaviors)) client

theorem shifts_operation (operation : Operation) : Shifts operation.action := by
  cases operation with
  | select element target => exact shifts_select element target
  | clearSelection => exact shifts_clearSelection
  | hover element => exact shifts_hover element
  | clearHover => exact shifts_clearHover
  | startEditing session => exact shifts_startEditing session
  | commitEditing text => exact (shifts_commitEditing text).discard
  | cancelEditing => exact shifts_cancelEditing
  | putEdit id edit => exact shifts_putEdit id edit
  | mark id verdict => exact shifts_mark id verdict
  | removeEdit id => exact shifts_removeEdit id
  | setStatus status error => exact framing_shifted.setStatus status error
  | send message => exact (shifts_send message).discard
  | subscribe => exact fun _ => .of_same rfl
  | unsubscribe subscriber => exact shifts_modify fun _ => rfl
  | dispose => exact shifts_modify fun _ => rfl

theorem shifts_occurrence {behaviors : Behaviors} (attentive : behaviors.Attentive) (occurrence : Occurrence) :
    Shifts (occurrence.action behaviors) := by
  cases occurrence with
  | operation operation => exact shifts_operation operation
  | event event => exact framing_shifted.dispatch attentive.keep event
  | focus target => exact framing_shifted.moveFocus attentive.keep target
  | blur element => exact framing_shifted.blur attentive.keep element
  | page tree => exact shifts_modify fun _ => rfl
  | fire number => exact fun client => framing_shifted.fireNumber client number
  | time now => exact shifts_modify fun _ => rfl
  | start => exact framing_shifted.start
  | destroy =>
    -- A client that is destroyed keeps what is selected and edited; its listeners, timers and socket go.
    refine Shifts.bind (shifts_modify fun _ => rfl) fun _ => ?_
    exact Shifts.bind framing_shifted.close fun _ => shifts_modify fun _ => rfl
  | connect => exact framing_shifted.connect
  | close => exact framing_shifted.close
  | opened attempt => exact framing_shifted.opened attempt
  | refused attempt => exact framing_shifted.refused attempt
  | closed attempt => exact framing_shifted.closed attempt
  | received attempt frame => exact shifts_received attempt frame

theorem shifted_through {behaviors : Behaviors} (attentive : behaviors.Attentive) (client : Client)
    (occurrences : List Occurrence) : Shifted client (client.through behaviors occurrences) := by
  induction occurrences generalizing client with
  -- What the rest of the run shifts is shifted further, so the induction is over the run from the front.
  | nil => exact .refl
  | cons occurrence rest ih => exact (shifts_occurrence attentive occurrence client).trans (ih _)

/-- What is pointed at is not selected, nothing is pointed at while a text is edited, and a text is edited just if
there is an element whose text it is. -/
structure Apart (client : Client) : Prop where
  unselected : ∀ id, client.hovered = some id → client.selected.map Selected.element ≠ some id
  quiet : client.session.isSome → client.hovered = none
  whole : client.session.isSome ↔ ∃ id, isEdited client id

theorem apart_iff (client : Client) : client.Apart ↔ client.attention.Apart := by
  constructor
  · rintro ⟨unselected, quiet, -⟩
    exact ⟨unselected, by simpa [attention] using quiet⟩
  · rintro ⟨unselected, quiet⟩
    refine ⟨unselected, by simpa [attention] using quiet, ?_⟩
    cases edited : client.session <;> simp [isEdited, edited]

/-- A client that nothing has been done with is in such a state. -/
theorem apart_of_idle {client : Client} (hovered : client.hovered = none) (session : client.session = none) :
    client.Apart :=
  (apart_iff client).mpr ⟨by simp [attention, hovered], by simp [attention, session]⟩

/-- Whatever happens to a client, what is selected, pointed at and edited stays apart. -/
theorem apart_throughout {behaviors : Behaviors} (attentive : behaviors.Attentive) {client : Client}
    (apart : client.Apart) (occurrences : List Occurrence) : (client.through behaviors occurrences).Apart :=
  (apart_iff _).mpr ((shifted_through attentive client occurrences).apart ((apart_iff client).mp apart))

/-- A heading is edited while the other one is selected; then it is pointed at. -/
theorem apart_two_headings :
    let after := twoHeadings.through standardBehaviors [.event (.click (some 2)), .event (.doubleClick (some 1)),
      .operation (.hover 1), .event (.keyDown ⟨"Escape", false⟩), .event (.mouseMove (some 1))]
    after.hovered = some 1 ∧ after.selected.map Selected.element = some 2 ∧ after.Apart :=
  ⟨by decide +kernel, by decide +kernel, apart_throughout attentive_standardBehaviors (apart_of_idle rfl rfl) _⟩

end Retouch.Client
