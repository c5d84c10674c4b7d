import Mathlib.Logic.Relation
import Retouch.Proofs.Client.Framing

/-!
# What the user attends to

One element may be selected, one pointed at, and the text of one be edited. The actions of the client shift these in
six ways only. All others leave them as they are, so whatever the six ways keep is kept by everything that is made of
such actions.

## Main statements

* `Shift.apart`: what is pointed at is not selected, and nothing is pointed at while a text is edited.
* `shifts_hover`, `shifts_select`, `shifts_startEditing`: an operation shifts the attention in these ways.
* `framing_shifted`: so does all that happens to a client.
-/
namespace Retouch.Client

/-- The elements that the user attends to. -/
structure Attention where
  selected : Option ElementId
  hovered : Option ElementId
  edited : Option ElementId
  deriving DecidableEq, Repr

def attention (client : Client) : Attention :=
  { selected := client.selected.map Selected.element
    hovered := client.hovered
    edited := client.session.map Session.element }

/-- What one change can do to the attention. -/
inductive Shift : Attention → Attention → Prop where
  /-- An element is selected, and no longer pointed at. The edit of another one has ended. -/
  | selected (a : Attention) (id : ElementId) : Shift a
    { selected := some id, hovered := a.hovered.filter (· ≠ id), edited := a.edited.filter (· = id) }
  | cleared (a : Attention) : Shift a { a with selected := none, edited := none }
  /-- Another element than the selected one is pointed at, while no text is edited. -/
  | hovered (a : Attention) (id : ElementId) (idle : a.edited = none) (other : a.selected ≠ some id) :
    Shift a { a with hovered := some id }
  | left (a : Attention) : Shift a { a with hovered := none }
  | opened (a : Attention) (id : ElementId) : Shift a { a with hovered := none, edited := some id }
  | ended (a : Attention) : Shift a { a with edited := none }

namespace Attention

/-- What is pointed at is not selected, and nothing is pointed at while a text is edited. -/
structure Apart (a : Attention) : Prop where
  unselected : ∀ id, a.hovered = some id → a.selected ≠ some id
  quiet : a.edited.isSome → a.hovered = none

end Attention

theorem Shift.apart {a b : Attention} (shift : Shift a b) (apart : a.Apart) : b.Apart := by
  cases shift with
  | selected id =>
    constructor
    · intro other hovered same
      obtain ⟨-, distinct⟩ := Option.filter_eq_some_iff.mp hovered
      simp [Option.some.inj same] at distinct
    · intro edited
      have open' : a.edited.isSome := Option.isSome_of_isSome_filter _ _ edited
      simp [apart.quiet open']
  | cleared => exact ⟨by simp, by simp⟩
  | hovered id idle other =>
    constructor
    · intro id' hovered
      exact Option.some.inj hovered ▸ other
    · simp [idle]
  | left => exact ⟨by simp, by simp⟩
  | opened id => exact ⟨by simp, by simp⟩
  | ended => exact ⟨apart.unselected, by simp⟩

/-! ### Actions -/

/-- The attention is shifted, in one of the ways after another, from one state to another. -/
def Shifted (before after : Client) : Prop := Relation.ReflTransGen Shift before.attention after.attention

theorem Shifted.of_same {before after : Client} (same : after.attention = before.attention) :
    Shifted before after := by
  unfold Shifted
  rw [same]

theorem Shifted.apart {before after : Client} (shifted : Shifted before after) (apart : before.attention.Apart) :
    after.attention.Apart := by
  unfold Shifted at shifted
  generalize after.attention = a at shifted ⊢
  induction shifted with
  | refl => exact apart
  | tail _ shift ih => exact shift.apart ih

/-- An action that does nothing else to the attention. -/
def Shifts {α : Type} (action : Action α) : Prop := ∀ client : Client, Shifted client (client.after action)

section closure

variable {α β : Type}

theorem Shifts.bind {action : Action α} {next : α → Action β} (first : Shifts action)
    (second : ∀ a, Shifts (next a)) : Shifts (action >>= next) := fun client => by
  rw [after_bind]
  exact (first client).trans (second _ _)

theorem shifts_pure (a : α) : Shifts (pure a : Action α) := fun _ => .refl

theorem shifts_get : Shifts (get : Action Client) := fun _ => .refl

theorem Shifts.discard {action : Action α} (shifts : Shifts action) : Shifts (discard action) := shifts

/-- To do something that has to do with something else. -/
theorem shifts_modify {f : Client → Client} (same : ∀ client, (f client).attention = client.attention) :
    Shifts (modify f) := fun client => .of_same (same client)

theorem shifts_change {f : Client → Client} (same : ∀ client, (f client).attention = client.attention) :
    Shifts (change f) := fun client => .of_same (same client)

/-- To do one of the things listed. -/
theorem shifts_of_shift {f : Client → Client} (shift : ∀ client, Shift client.attention (f client).attention) :
    Shifts (change f) := fun client => .single (shift client)

end closure

/-! ### Selecting, pointing and editing -/

theorem shifts_endSession : Shifts endSession := shifts_of_shift fun client => .ended client.attention

theorem shifts_clearHover : Shifts clearHover := shifts_of_shift fun client => .left client.attention

theorem shifts_startEditing (session : Session) : Shifts (startEditing session) :=
  shifts_of_shift fun client => .opened client.attention session.element

theorem shifts_setText (id : ElementId) (text : String) : Shifts (setText id text) := shifts_modify fun _ => rfl

theorem shifts_closeElement (id : ElementId) : Shifts (closeElement id) := shifts_modify fun _ => rfl

theorem shifts_cancelEditing : Shifts cancelEditing := by
  refine shifts_get.bind fun client => ?_
  split
  · exact (shifts_setText _ _).bind fun _ => (shifts_closeElement _).bind fun _ => shifts_endSession
  · exact shifts_endSession

theorem shifts_clearSelection : Shifts clearSelection := by
  have clears : Shifts (change fun client => { client with selected := none, session := none }) :=
    shifts_of_shift fun client => .cleared client.attention
  refine shifts_get.bind fun client => ?_
  split
  · exact shifts_cancelEditing.bind fun _ => clears
  · exact clears

theorem shifts_hover (id : ElementId) : Shifts (hover id) := by
  intro client
  simp only [hover, after_bind, after_get, said_get]
  split
  · exact .refl
  · rename_i idle
    split
    · split
      · exact shifts_clearHover client
      · exact .refl
    · rename_i other
      refine .single (.hovered client.attention id ?_ other)
      simpa [attention] using idle

/-- A client that is not about to end the edit of another element is left to select one. -/
theorem shift_chosen (client : Client) (id : ElementId) (target : Option SourceLocator)
    (kept : ∀ session, client.session = some session → session.element = id) :
    Shift client.attention { client with
      selected := some ⟨id, target⟩
      hovered := client.hovered.filter (· ≠ id) }.attention := by
  have same : client.attention.edited.filter (· = id) = client.attention.edited := by
    cases edited : client.session with
    | none => simp [attention, edited]
    | some session => simp [attention, edited, Option.filter_some, kept session edited]
  have chosen := Shift.selected client.attention id
  rw [same] at chosen
  exact chosen

theorem shifts_select (id : ElementId) (target : Option SourceLocator) : Shifts (select id target) := by
  intro client
  have chooses (before : Client) (kept : ∀ session, before.session = some session → session.element = id)
      (session : Option Session) (same : session = before.session) :
      Shifted before (before.after (change fun client => { client with
        selected := some ⟨id, target⟩
        hovered := client.hovered.filter (· ≠ id)
        session })) := by
    subst same
    exact .single (shift_chosen before id target kept)
  simp only [select, after_bind, after_get, said_get]
  cases edited : client.session with
  | none => exact chooses client (by simp [edited]) _ (by simp [edited])
  | some session =>
    -- The edit of a text goes on just if it is the text of this element; any other one is canceled first.
    by_cases here : session.element = id
    · have kept : (some session).filter (fun s => s.element = id) = some session := by
        simp [Option.filter_some, here]
      simp only [kept, Option.isSome_some, Option.isNone_some, Bool.and_false, Bool.false_eq_true, if_false]
      refine chooses client (fun session' other => ?_) _ edited.symm
      rwa [← Option.some.inj (edited.symm.trans other)]
    · have dropped : (some session).filter (fun s => s.element = id) = none := by
        simp [Option.filter_some, here]
      simp only [dropped, Option.isSome_some, Option.isNone_none, Bool.and_true, if_true, after_bind]
      have idle : (client.after cancelEditing).session = none := by
        have ended := congrArg Desk.session (desk_cancelEditing client)
        simpa using ended
      refine (shifts_cancelEditing client).trans (chooses _ ?_ none idle.symm)
      simp [idle]

/-! ### Edits that were sent -/

theorem shifts_schedule (delay : Number.Amount) (task : Task) : Shifts (schedule delay task) :=
  fun _ => .of_same rfl

theorem shifts_cancel (timer : Nat) : Shifts (cancel timer) := shifts_modify fun _ => rfl

theorem shifts_emit (effect : Effect) : Shifts (emit effect) := shifts_modify fun _ => rfl

theorem shifts_putEdit (id : String) (edit : Edit) : Shifts (putEdit id edit) := shifts_change fun _ => rfl

theorem shifts_mark (id : String) (verdict : Verdict) : Shifts (mark id verdict) := by
  cases verdict with
  | committed =>
    refine shifts_get.bind fun client => ?_
    split
    · exact (shifts_putEdit _ _).bind fun _ => (shifts_schedule _ _).discard
    · exact shifts_pure ()
  | failed error =>
    refine shifts_get.bind fun client => ?_
    split
    · exact shifts_putEdit _ _
    · exact shifts_pure ()

theorem shifts_removeEdit (id : String) : Shifts (removeEdit id) := by
  refine shifts_get.bind fun client => ?_
  split
  · exact shifts_change fun _ => rfl
  · exact shifts_pure ()

theorem shifts_send (message : Json) : Shifts (send message) := by
  refine shifts_get.bind fun client => ?_
  split
  · refine shifts_get.bind fun client => ?_
    split
    · exact shifts_pure _
    · exact (shifts_emit _).bind fun _ => shifts_pure _
  · exact shifts_pure _

theorem shifts_commitEditing (new : String) : Shifts (commitEditing new) := by
  refine shifts_get.bind fun client => ?_
  split
  · split
    · exact shifts_endSession.bind fun _ => shifts_pure _
    · dsimp only
      refine Shifts.bind (shifts_modify fun _ => rfl) fun _ => ?_
      refine (shifts_putEdit _ _).bind fun _ => (shifts_send _).bind fun _ => ?_
      exact shifts_endSession.bind fun _ => shifts_pure _
  · exact shifts_endSession.bind fun _ => shifts_pure _

/-! ### All that happens to a client -/

/-- The operations of the client shift the attention in these ways only, so all that happens does. -/
theorem framing_shifted : Framing Shifted where
  trans := Relation.ReflTransGen.trans
  rest same := .of_same (congrArg (fun core : Core =>
    (⟨core.selected.map Selected.element, core.hovered, core.session.map Session.element⟩ : Attention)) same)
  select _ id := shifts_select id _ _
  clearSelection := shifts_clearSelection
  hover := shifts_hover
  clearHover := shifts_clearHover
  startEditing := shifts_startEditing
  endSession := shifts_endSession
  commitEditing := shifts_commitEditing
  schedule delay task _ := shifts_schedule delay task
  cancel := shifts_cancel
  prune client timer id _ task := by
    unfold fire
    rw [task]
    exact (shifts_cancel timer.number).bind (fun _ => shifts_removeEdit id) client

theorem shifts_takeFrame (frame : String) : Shifts (takeFrame frame) := by
  unfold takeFrame
  split
  · exact shifts_pure _
  · exact shifts_pure _
  · exact (shifts_mark _ _).bind fun _ => shifts_pure _

theorem shifts_received (attempt : Nat) (frame : String) : Shifts (received attempt frame) := by
  refine shifts_get.bind fun client => ?_
  split
  · refine (shifts_takeFrame frame).bind fun answer => ?_
    split
    · exact framing_shifted.closed attempt
    · exact shifts_pure ()
  · exact shifts_pure ()

end Retouch.Client
