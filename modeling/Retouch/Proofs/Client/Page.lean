import Retouch.Proofs.Client.Step
import Retouch.Proofs.Table

/-!
# The page under the edits of its texts

What typing into elements, and marking them as being edited, leaves alone: the places that the elements name,
their number, and the texts of those that are only marked.

## Main statements

* `Marks.setText`, `Marks.mark`, `Marks.unmark`: just the element that is being edited stays marked.
* `textOf_canceled`: an edit that is canceled leaves the text that its session knows.
* `restored_eq_iff`: when an element that was marked and got its own text back is as it was.
-/
namespace Retouch.Client

/-! ### Elements -/

/-- What typing into a page does not change of an element. -/
def Element.look (e : Element) : String × Table String String × Bool × Table String String :=
  (e.tag, e.attributes, e.editable, e.dataset)

section trees

variable (tree : Tree) (id other : ElementId)

theorem look_orphan (ids : List ElementId) :
    ((tree.orphan ids).get? other).map Element.look = (tree.get? other).map Element.look := by
  induction ids generalizing tree with
  | nil => rfl
  | cons id rest ih =>
    rw [Tree.orphan, ih, Tree.get?_update]
    split
    · cases tree.get? other <;> rfl
    · rfl

theorem look_setText (text : String) :
    ((tree.setText id text).get? other).map Element.look = (tree.get? other).map Element.look := by
  rw [Tree.setText, Tree.get?_update, ← look_orphan tree other (tree.childrenOf id)]
  split
  · cases (tree.orphan (tree.childrenOf id)).get? other <;> rfl
  · rfl

theorem get?_unmark :
    (tree.unmark id).get? other = if id = other then (tree.get? other).map fun e =>
      { e with editable := false, dataset := e.dataset.drop editingKey } else tree.get? other :=
  Tree.get?_update tree id other _

theorem get?_mark :
    (tree.mark id).get? other = if id = other then (tree.get? other).map fun e =>
      { e with editable := true, dataset := e.dataset.put editingKey "true" } else tree.get? other := by
  unfold Tree.mark
  rw [Tree.get?_update, Tree.get?_update]
  by_cases same : id = other
  · simp only [same, if_true, Option.map_map]
    rfl
  · simp only [same, if_false]

/-- The places that elements name do not change with texts and marks. -/
theorem elementTarget_congr {tree after : Tree}
    (same : (after.get? id).map Element.attributes = (tree.get? id).map Element.attributes) :
    elementTarget after id = elementTarget tree id := by
  have named (name : String) : after.attribute? id name = tree.attribute? id name := by
    have both (t : Tree) : t.attribute? id name =
        ((t.get? id).map Element.attributes).bind fun attributes => attributes.get? name := by
      unfold Tree.attribute?
      cases t.get? id <;> rfl
    rw [both, both, same]
  simp only [elementTarget, named]

theorem attributes_setText (text : String) :
    ((tree.setText id text).get? other).map Element.attributes = (tree.get? other).map Element.attributes := by
  have look := congrArg (Option.map fun look => look.2.1) (look_setText tree id other text)
  simpa [Option.map_map, Function.comp_def, Element.look] using look

theorem attributes_unmark :
    ((tree.unmark id).get? other).map Element.attributes = (tree.get? other).map Element.attributes := by
  rw [get?_unmark]
  split
  · cases tree.get? other <;> rfl
  · rfl

theorem attributes_mark :
    ((tree.mark id).get? other).map Element.attributes = (tree.get? other).map Element.attributes := by
  rw [get?_mark]
  split
  · cases tree.get? other <;> rfl
  · rfl

end trees

/-! ### Texts of elements -/

/-- Elements with the same texts and children have the same text with all in them. -/
theorem textWithin_congr (tree : Tree) {after : Tree}
    (same : ∀ id, (after.get? id).map (fun e => (e.text, e.children)) =
      (tree.get? id).map fun e => (e.text, e.children)) (depth : Nat) (id : ElementId) :
    after.textWithin depth id = tree.textWithin depth id := by
  induction depth generalizing id with
  | zero => rfl
  | succ depth ih =>
    have here := same id
    unfold Tree.textWithin
    cases found : tree.get? id with
    | none =>
      rw [found, Option.map_none, Option.map_eq_none_iff] at here
      rw [here]
    | some e =>
      rw [found] at here
      obtain ⟨e', found', looks⟩ := Option.map_eq_some_iff.mp here
      obtain ⟨text, children⟩ := Prod.mk.inj looks
      have within : after.textWithin depth = tree.textWithin depth := funext ih
      simp only [found', text, children, within]

theorem textOf_unmark (tree : Tree) (id other : ElementId) : (tree.unmark id).textOf other = tree.textOf other := by
  unfold Tree.textOf Tree.text?
  rw [textWithin_congr tree]
  · rw [Tree.unmark, Tree.size_update]
  · intro place
    rw [get?_unmark]
    split
    · cases tree.get? place <;> rfl
    · rfl

theorem textOf_mark (tree : Tree) (id other : ElementId) : (tree.mark id).textOf other = tree.textOf other := by
  unfold Tree.textOf Tree.text?
  rw [textWithin_congr tree]
  · rw [Tree.mark, Tree.size_update, Tree.size_update]
  · intro place
    rw [get?_mark]
    split
    · cases tree.get? place <;> rfl
    · rfl

theorem textOf_canceled {desk : Desk} {session : Session} (edited : desk.session = some session)
    (there : session.element < desk.tree.size) :
    desk.canceled.tree.textOf session.element = session.prior := by
  simp only [Desk.canceled, edited]
  rw [textOf_unmark, Tree.textOf, Tree.text?_setText _ _ _ there]
  rfl

theorem size_canceled (desk : Desk) : desk.canceled.tree.size = desk.tree.size := by
  cases edited : desk.session with
  | none => simp [Desk.canceled, edited]
  | some session => simp [Desk.canceled, edited, Tree.unmark, Tree.size_update, Tree.size_setText]

/-- No step makes or removes an element. -/
theorem Turn.size {client : Client} {doing : Doing} {after : Desk} (turn : Turn client doing after) :
    after.tree.size = client.tree.size := by
  cases turn with
  | rest => rfl
  | typed id text => exact Tree.size_setText _ _ _
  | pruned => rfl
  | selected => exact size_canceled client.desk
  | cleared => exact size_canceled client.desk
  | canceled => exact size_canceled client.desk
  | opened => exact (Tree.size_update _ _ _).trans (Tree.size_update _ _ _)
  | committed => exact Tree.size_update _ _ _

/-! ### Marks -/

/-- The user can type into the element, and it is flagged as being edited. -/
def Element.Marked (e : Element) : Prop := e.editable = true ∧ e.dataset.has editingKey = true

def Element.Unmarked (e : Element) : Prop := e.editable = false ∧ e.dataset.has editingKey = false

/-- Just the element that is being edited, if there is one, is marked. -/
structure Marks (tree : Tree) (edited : Option ElementId) : Prop where
  marked : ∀ id, edited = some id → ∃ e, tree.get? id = some e ∧ e.Marked
  unmarked : ∀ id e, tree.get? id = some e → edited ≠ some id → e.Unmarked

namespace Marks

variable {tree : Tree} {edited : Option ElementId} {id : ElementId}

theorem setText (marks : Marks tree edited) (text : String) : Marks (tree.setText id text) edited := by
  have back (other : ElementId) (e : Element) (found : (tree.setText id text).get? other = some e) :
      ∃ e', tree.get? other = some e' ∧ e'.look = e.look := by
    have look := look_setText tree id other text
    rw [found] at look
    exact Option.map_eq_some_iff.mp look.symm
  constructor
  · intro other here
    obtain ⟨e, found, marked⟩ := marks.marked other here
    have look := look_setText tree id other text
    rw [found] at look
    obtain ⟨e', found', same⟩ := Option.map_eq_some_iff.mp look
    simp only [Element.look, Prod.mk.injEq] at same
    exact ⟨e', found', by simpa only [Element.Marked, same] using marked⟩
  · intro other e found elsewhere
    obtain ⟨e', found', same⟩ := back other e found
    have unmarked := marks.unmarked other e' found' elsewhere
    simp only [Element.look, Prod.mk.injEq] at same
    simpa only [Element.Unmarked, same] using unmarked

theorem unmark (marks : Marks tree (some id)) : Marks (tree.unmark id) none := by
  constructor
  · intro other here
    cases here
  · intro other e found _
    rw [get?_unmark] at found
    split at found
    · obtain ⟨e', -, rfl⟩ := Option.map_eq_some_iff.mp found
      simp [Element.Unmarked, Table.has, Table.get?_drop]
    · rename_i apart
      exact marks.unmarked other e found (by simpa using apart)

theorem mark (marks : Marks tree edited) (alone : edited = none ∨ edited = some id)
    (there : (tree.get? id).isSome) : Marks (tree.mark id) (some id) := by
  constructor
  · intro other here
    obtain rfl := Option.some.inj here
    obtain ⟨e, found⟩ := Option.isSome_iff_exists.mp there
    rw [get?_mark, if_pos rfl, found]
    exact ⟨_, rfl, rfl, by simp [Table.has, Table.get?_put]⟩
  · intro other e found apart
    have apart : ¬id = other := by simpa using apart
    rw [get?_mark, if_neg apart] at found
    refine marks.unmarked other e found ?_
    rcases alone with idle | same
    · simp [idle]
    · simpa [same] using apart

end Marks

/-! ### Texts put back -/

section trees

variable (tree : Tree) (id : ElementId) {e : Element}

theorem Tree.ext_get? {tree other : Tree} (same : ∀ id, tree.get? id = other.get? id) : tree = other := by
  obtain ⟨elements⟩ := tree
  obtain ⟨others⟩ := other
  exact congrArg Tree.mk (List.ext_getElem? same)

theorem mark_mark : (tree.mark id).mark id = tree.mark id := by
  refine Tree.ext_get? fun other => ?_
  rw [get?_mark, get?_mark]
  split
  · cases tree.get? other with
    | none => rfl
    | some e => simp [Table.put_put]
  · rfl

theorem textOf_leaf (found : tree.get? id = some e) (leaf : e.children = []) : tree.textOf id = e.text := by
  have inside : id < tree.size := (List.getElem?_eq_some_iff.mp found).1
  obtain ⟨depth, size⟩ := Nat.exists_eq_add_one_of_ne_zero (Nat.ne_zero_of_lt inside)
  simp [Tree.textOf, Tree.text?, size, Tree.textWithin, found, leaf]

/-- What an element is like once it was marked, got its own text and lost its marks again. -/
theorem get?_restored (text : String) : (((tree.mark id).setText id text).unmark id).get? id =
    (((tree.mark id).orphan ((tree.mark id).childrenOf id)).get? id).map fun e =>
      { e with text, children := [], editable := false, dataset := e.dataset.drop editingKey } := by
  rw [get?_unmark, if_pos rfl, Tree.setText, Tree.get?_update, if_pos rfl, Option.map_map]
  rfl

/-- To mark an element, put its text back and take the marks away changes nothing just if nothing is inside the element,
and it was not marked before. -/
theorem restored_eq_iff (found : tree.get? id = some e) :
    ((tree.mark id).setText id (tree.textOf id)).unmark id = tree ↔ e.children = [] ∧ e.Unmarked := by
  constructor
  · intro same
    have here := get?_restored tree id (tree.textOf id)
    rw [same, found] at here
    obtain ⟨other, -, rfl⟩ := Option.map_eq_some_iff.mp here.symm
    exact ⟨rfl, rfl, by simp [Table.has, Table.get?_drop]⟩
  · rintro ⟨leaf, editable, unmarked⟩
    have alone : (tree.mark id).childrenOf id = [] := by
      rw [Tree.childrenOf, get?_mark, if_pos rfl, found]
      exact leaf
    have absent : e.dataset.get? editingKey = none := by simpa [Table.has] using unmarked
    have dataset := Table.drop_put_absent e.dataset absent "true"
    refine Tree.ext_get? fun other => ?_
    rw [get?_unmark]
    by_cases here : id = other
    · subst here
      rw [if_pos rfl, Tree.setText, alone, Tree.orphan, Tree.get?_update, if_pos rfl, get?_mark, if_pos rfl, found,
        textOf_leaf tree id found leaf]
      obtain ⟨tag, attributes, text, parent, children, editable, dataset⟩ := e
      simp_all
    · rw [if_neg here, Tree.setText, alone, Tree.orphan, Tree.get?_update, if_neg here, get?_mark, if_neg here]

end trees

end Retouch.Client
