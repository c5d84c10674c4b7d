import Retouch.Proofs.Client.Page

/-!
# Selection, session and marks

Three things tell which text is being edited: the session with its element, the selection, and the marks on
the elements of the page. A double click opens a session whatever is selected, and takes no notice of one
that is open. So the three agree just as long as every double click that opens a session is on the element
that is selected; then what is sent goes to the place of the element whose text was edited.

## Main statements

* `keepsConsistent_iff`: session, selection and marks agree in all states of a run, and every request names
  the element that was edited, just if every session is opened on the selected element.
-/
namespace Retouch.Client

/-! ### What a step keeps -/

namespace Desk

/-- The element that is being edited is the selected one, and just this one is marked. -/
structure Consistent (desk : Desk) : Prop where
  chosen : ∀ session, desk.session = some session →
    desk.selected.map Selected.element = some session.element
  marks : Marks desk.tree (desk.session.map Session.element)

/-- The selection knows the place that its element names. -/
def Aimed (desk : Desk) : Prop :=
  ∀ selected, desk.selected = some selected → selected.target = elementTarget desk.tree selected.element

variable {desk : Desk}

theorem Consistent.canceled (consistent : desk.Consistent) : Marks desk.canceled.tree none := by
  have marks := consistent.marks
  cases edited : desk.session with
  | none => simpa [Desk.canceled, edited] using marks
  | some session =>
    rw [edited] at marks
    simpa [Desk.canceled, edited] using (marks.setText session.prior).unmark

theorem elementTarget_canceled (desk : Desk) (id : ElementId) :
    elementTarget desk.canceled.tree id = elementTarget desk.tree id := by
  cases edited : desk.session with
  | none => simp [canceled, edited]
  | some session =>
    simp only [canceled, edited]
    exact elementTarget_congr id
      ((attributes_unmark _ _ _).trans (attributes_setText _ _ _ _))

end Desk

/-- A step keeps session, selection and marks in step, if it opens a session only on what is selected. -/
theorem Turn.consistent {client : Client} {doing : Doing} {after : Desk} (turn : Turn client doing after)
    (before : client.desk.Consistent)
    (chosen : ∀ id, client.opens? doing = some id → client.selected.map Selected.element = some id) :
    after.Consistent := by
  cases turn with
  | rest => exact before
  | typed id text => exact ⟨before.chosen, before.marks.setText text⟩
  | pruned => exact ⟨before.chosen, before.marks⟩
  | selected target id other => exact ⟨by simp, by simpa using before.canceled⟩
  | cleared target => exact ⟨by simp, by simpa using before.canceled⟩
  | canceled key escape => exact ⟨by simp, by simpa using before.canceled⟩
  | opened _ id opens =>
    constructor
    · intro session edited
      obtain rfl := Option.some.inj edited
      exact chosen id opens
    · refine before.marks.mark ?_ (there_of_opens opens)
      -- A session that is open already is on the selected element, like the new one.
      cases edited : client.session with
      | none => exact .inl (by simp [edited])
      | some session =>
        have same := (before.chosen session edited).symm.trans (chosen id opens)
        exact .inr (by simpa [edited] using same)
  | committed _ commits session edited =>
    have marks := before.marks
    rw [desk_session, edited] at marks
    exact ⟨by simp, by simpa using marks.unmark⟩

theorem Desk.Aimed.keep {desk after : Desk} (aimed : desk.Aimed) (selected : after.selected = desk.selected)
    (targets : ∀ id, elementTarget after.tree id = elementTarget desk.tree id) : after.Aimed := by
  intro chosen here
  rw [targets]
  exact aimed chosen (selected ▸ here)

theorem Turn.aimed {client : Client} {doing : Doing} {after : Desk} (turn : Turn client doing after)
    (before : client.desk.Aimed) : after.Aimed := by
  cases turn with
  | rest => exact before
  | typed id text =>
    exact before.keep rfl fun other => elementTarget_congr other (attributes_setText _ _ _ text)
  | pruned => exact before.keep rfl fun _ => rfl
  | selected target id other =>
    intro selected here
    obtain rfl := Option.some.inj here
    exact (Desk.elementTarget_canceled client.desk id).symm
  | cleared target =>
    intro selected here
    cases here
  | canceled key escape => exact before.keep (by simp) (Desk.elementTarget_canceled client.desk)
  | opened _ id opens =>
    exact before.keep rfl fun other => elementTarget_congr other (attributes_mark _ _ _)
  | committed _ commits session edited =>
    exact before.keep (by simp) fun other => elementTarget_congr other (attributes_unmark _ _ _)

/-- A request of the client: what it asks for is what the user did to the element that was edited. -/
def IsRequest (client : Client) (text : String) : Prop :=
  ∃ session target id, client.session = some session ∧
    elementTarget client.tree session.element = some target ∧
      text = (requestMessage ⟨id, target, .textUpdate session.prior
        (client.tree.textOf session.element)⟩).write

theorem eq_of_mem_linesFor {client : Client} {request : Request} {line : Nat × String}
    (member : line ∈ client.linesFor request) : line.2 = (requestMessage request).write := by
  unfold linesFor at member
  split at member
  · split at member
    · rw [List.mem_singleton.mp member]
    · cases member
  · cases member

theorem Turn.lines {client : Client} {doing : Doing} {after : Desk} (turn : Turn client doing after)
    (consistent : client.desk.Consistent) (aimed : client.desk.Aimed) {line : Nat × String}
    (member : line ∈ after.lines) : line ∈ client.desk.lines ∨ client.IsRequest line.2 := by
  cases turn with
  | rest => exact .inl member
  | typed => exact .inl member
  | pruned => exact .inl member
  | selected => exact .inl (by simpa using member)
  | cleared => exact .inl (by simpa using member)
  | canceled => exact .inl (by simpa using member)
  | opened => exact .inl member
  | committed _ commits session edited =>
    unfold Client.committed at member
    cases sends : client.request? session (client.tree.textOf session.element) with
    | none =>
      rw [sends] at member
      exact .inl member
    | some request =>
      rw [sends] at member
      rcases List.mem_append.mp member with old | new
      · exact .inl old
      · obtain ⟨-, element, target, selected, rfl⟩ := request?_eq_some sends
        have same : element = session.element := by
          simpa [selected] using consistent.chosen session edited
        have target_eq : some target = elementTarget client.tree session.element :=
          same ▸ aimed _ selected
        exact .inr ⟨session, target, _, edited, target_eq.symm, eq_of_mem_linesFor new⟩

/-! ### Runs -/

/-- Session, selection and marks agree in all states of a run, and all that is written on the way are
requests for the element that is edited. -/
def KeepsConsistent : Client → List Doing → Prop
  | client, [] => client.desk.Consistent
  | client, doing :: rest =>
    client.desk.Consistent ∧ (∀ line ∈ (doing.after client).desk.lines, client.IsRequest line.2) ∧
      KeepsConsistent (doing.after client) rest

/-- Every session is opened on the element that is selected. -/
def SelectsFirst : Client → List Doing → Prop
  | _, [] => True
  | client, doing :: rest =>
    (∀ id, client.opens? doing = some id → client.selected.map Selected.element = some id) ∧
      SelectsFirst (doing.after client) rest

theorem KeepsConsistent.consistent {client : Client} {doings : List Doing}
    (keeps : KeepsConsistent client doings) : client.desk.Consistent := by
  cases doings with
  | nil => exact keeps
  | cons => exact keeps.1

theorem keepsConsistent_iff_of_consistent {client : Client} (consistent : client.desk.Consistent)
    (aimed : client.desk.Aimed) (doings : List Doing) :
    KeepsConsistent client doings ↔ SelectsFirst client doings := by
  induction doings generalizing client with
  | nil => exact ⟨fun _ => trivial, fun _ => consistent⟩
  | cons doing rest ih =>
    have turn := turn_after client doing
    have aimed' := turn.aimed aimed
    constructor
    · rintro ⟨-, -, keeps⟩
      have next := keeps.consistent
      refine ⟨fun id opens => ?_, (ih next aimed').mp keeps⟩
      -- After the double click the session is on `id`; the selection is still the one before.
      rw [turn.eq_opened opens] at next
      exact next.chosen _ rfl
    · rintro ⟨chosen, first⟩
      have next := turn.consistent ⟨consistent.chosen, consistent.marks⟩ chosen
      refine ⟨consistent, fun line member => ?_, (ih next aimed').mpr first⟩
      rcases turn.lines ⟨consistent.chosen, consistent.marks⟩ aimed member with old | new
      · cases old
      · exact new

/-- Session, selection and marks agree in all states of a run, and every request names the element that was
edited, just if every session is opened on the selected element. -/
theorem keepsConsistent_iff {page : Client} (begun : Begun page)
    (unmarked : ∀ id e, page.tree.get? id = some e → e.Unmarked) (doings : List Doing) :
    KeepsConsistent page doings ↔ SelectsFirst page doings := by
  have idle : page.session = none := begun.session
  have consistent : page.desk.Consistent := by
    constructor
    · simp [idle]
    · rw [desk_session, idle]
      exact ⟨by simp, fun id e found _ => unmarked id e found⟩
  have aimed : page.desk.Aimed := by
    intro selected here
    have none_selected := begun.selected.symm.trans here
    cases none_selected
  exact keepsConsistent_iff_of_consistent consistent aimed doings

/-- The user clicks a heading, double-clicks it, types and presses the enter key. -/
theorem keepsConsistent_heading :
    KeepsConsistent twoHeadings [.event (.click (some 1)), .event (.doubleClick (some 1)), .type 1 "new",
      .event (.keyDown ⟨"Enter", false⟩)] := by
  refine (keepsConsistent_iff ⟨rfl, rfl, rfl, rfl⟩ ?_ _).mpr ⟨?_, ?_, ?_, ?_, trivial⟩
  · have every : ∀ e ∈ twoHeadings.tree.elements, e.editable = false ∧ e.dataset.has editingKey = false := by
      decide
    exact fun id e found => every e (List.mem_of_getElem? found)
  · intro id opens
    cases opens
  · have chosen : (Doing.after (.event (.click (some 1))) twoHeadings).opens?
          (.event (.doubleClick (some 1))) = some 1 ∧
        (Doing.after (.event (.click (some 1))) twoHeadings).selected.map Selected.element = some 1 := by
      decide +kernel
    intro id opens
    rw [chosen.2, ← opens, chosen.1]
  · intro id opens
    cases opens
  · intro id opens
    cases opens

/-- A heading is selected and edited, and the other one is double-clicked, changed and committed: the request
has the texts of the other one, and the place of the first. -/
theorem other_heading_named :
    let doings : List Doing := [.event (.click (some 1)), .event (.doubleClick (some 1)),
      .event (.doubleClick (some 2)), .type 2 "new"]
    (run twoHeadings doings).session.map Session.element = some 2 ∧
      (run twoHeadings doings).selected.map Selected.element = some 1 ∧
      (Doing.after (.event (.keyDown ⟨"Enter", false⟩)) (run twoHeadings doings)).desk.lines =
        [(0, (requestMessage ⟨editId 0 1, ⟨"a.tsx", 1, 1, "", []⟩, .textUpdate "two" "new"⟩).write)] ∧
      ¬KeepsConsistent twoHeadings doings := by
  intro doings
  have session : (run twoHeadings doings).session.map Session.element = some 2 := by decide +kernel
  have selected : (run twoHeadings doings).selected.map Selected.element = some 1 := by decide +kernel
  refine ⟨session, selected, by decide +kernel, ?_⟩
  rintro ⟨-, -, -, -, -, -, -, -, consistent⟩
  obtain ⟨open', here, on⟩ := Option.map_eq_some_iff.mp session
  have chosen : (run twoHeadings doings).selected.map Selected.element = some open'.element :=
    consistent.chosen open' here
  rw [selected, on] at chosen
  cases chosen

end Retouch.Client
