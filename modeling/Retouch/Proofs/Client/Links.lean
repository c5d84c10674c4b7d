import Mathlib.Data.List.Infix
import Mathlib.Data.List.Nodup
import Mathlib.Data.List.Perm.Subperm
import Mathlib.Logic.Relation
import Mathlib.Order.WellFounded
import Retouch.Client.Tree

/-!
# The links between the elements of a page

An element names its parent, and the parent names it among its children. Making an element, moving one and setting a
text change both links together. So the two agree in all pages, and whoever goes from an element to its parent, and on
from there, comes to an end, as long as no element is put into itself.

Going up is a relation of its own beside the walks of a page, which take as many steps as there are elements at most:
that these are enough is the pigeonhole principle, since nobody passes an element twice.

## Main statements

* `Linked.append`, `Linked.create` and `Linked.setText`: what each change keeps, and so `Linked.step`.
* `Linked.upwards_ancestors`: the elements around another one are those that are passed on the way up.
* `Linked.text?_eq`: the text of an element is its own and those of its children.
* `links_throughout`: the links of all pages, and what is found along them.
-/
namespace Retouch.Client.Tree

open Relation

variable {tree next start : Tree} {id parent child other found : ElementId} {name : String} {path : List ElementId}

/-- An element is right above another one: it is the parent of it. -/
def Above (tree : Tree) (parent child : ElementId) : Prop := tree.parentOf child = some parent

/-- An element is another one or around it. -/
def Around (tree : Tree) : ElementId → ElementId → Prop := ReflTransGen tree.Above

/-- The links of a page agree, and lead out of it. -/
structure Linked (tree : Tree) : Prop where
  /-- An element is among the children of its parent, once, and among those of no other element. -/
  listed : ∀ parent child, (tree.childrenOf parent).count child = if tree.parentOf child = some parent then 1 else 0
  grounded : WellFounded tree.Above

/-- What is done to the elements of a page. -/
inductive Reshaping where
  | create (tag : String) (attributes : Table String String) (text : String) (parent : ElementId)
  | append (parent child : ElementId)
  | setText (id : ElementId) (text : String)

def reshape (tree : Tree) : Reshaping → Tree
  | .create tag attributes text parent => (tree.create tag attributes text parent).1
  | .append parent child => tree.append parent child
  | .setText id text => tree.setText id text

/-- The elements are there, and the one that is moved is not put into itself. -/
def Allows (tree : Tree) : Reshaping → Prop
  | .create _ _ _ parent => parent < tree.size
  | .append parent child => parent < tree.size ∧ child < tree.size ∧ ¬ tree.Around child parent
  | .setText id _ => id < tree.size

/-- One page becomes another one by one change. -/
def Becomes (tree next : Tree) : Prop := ∃ reshaping, tree.Allows reshaping ∧ tree.reshape reshaping = next

/-- No element has a parent or children. -/
def Scattered (tree : Tree) : Prop := ∀ e ∈ tree.elements, e.parent = none ∧ e.children = []

/-! ### Links after a change -/

theorem get?_eq_none_iff : tree.get? id = none ↔ tree.size ≤ id := List.getElem?_eq_none_iff

theorem exists_get? (there : id < tree.size) : ∃ e, tree.get? id = some e := ⟨_, List.getElem?_eq_getElem there⟩

theorem parentOf_update_of_same {change : Element → Element} (same : ∀ e, (change e).parent = e.parent) :
    (tree.update id change).parentOf other = tree.parentOf other := by
  unfold parentOf
  rw [get?_update]
  split
  · cases tree.get? other <;> simp [same]
  · rfl

theorem childrenOf_update_of_same {change : Element → Element} (same : ∀ e, (change e).children = e.children) :
    (tree.update id change).childrenOf other = tree.childrenOf other := by
  unfold childrenOf
  rw [get?_update]
  split
  · cases tree.get? other <;> simp [same]
  · rfl

/-- A parent is set only where there is an element. -/
theorem parentOf_update (value : Option ElementId) (there : tree.size ≤ id → value = none) {change : Element → Element}
    (sets : ∀ e, (change e).parent = value) :
    (tree.update id change).parentOf other = if other = id then value else tree.parentOf other := by
  unfold parentOf
  rw [get?_update]
  by_cases same : id = other
  · subst same
    cases found : tree.get? id with
    | none => simp [there (get?_eq_none_iff.mp found)]
    | some e => simp [sets]
  · rw [if_neg same, if_neg (Ne.symm same)]

/-- Children are added only where there is an element. -/
theorem childrenOf_update (edit : List ElementId → List ElementId) (there : tree.size ≤ id → edit [] = [])
    {change : Element → Element} (sets : ∀ e, (change e).children = edit e.children) :
    (tree.update id change).childrenOf other =
      if other = id then edit (tree.childrenOf other) else tree.childrenOf other := by
  unfold childrenOf
  rw [get?_update]
  by_cases same : id = other
  · subst same
    cases found : tree.get? id with
    | none => simp [there (get?_eq_none_iff.mp found)]
    | some e => simp [sets]
  · rw [if_neg same, if_neg (Ne.symm same)]

theorem lt_size_of_parentOf (above : tree.parentOf child = some parent) : child < tree.size := by
  by_contra beyond
  unfold parentOf at above
  rw [get?_eq_none_iff.mpr (Nat.not_lt.mp beyond)] at above
  cases above

theorem lt_size_of_mem_childrenOf (member : child ∈ tree.childrenOf parent) : parent < tree.size := by
  by_contra beyond
  unfold childrenOf at member
  rw [get?_eq_none_iff.mpr (Nat.not_lt.mp beyond)] at member
  cases member

theorem Linked.mem_childrenOf_iff (linked : tree.Linked) : child ∈ tree.childrenOf parent ↔ tree.Above parent child := by
  rw [← List.count_pos_iff, linked.listed]
  unfold Above
  split <;> simp [*]

/-- What is right above an element of a page is in the page. -/
theorem Linked.parent_lt_size (linked : tree.Linked) (above : tree.Above parent child) : parent < tree.size :=
  lt_size_of_mem_childrenOf (linked.mem_childrenOf_iff.mpr above)

theorem Linked.lt_size_of_around (linked : tree.Linked) (around : tree.Around other id) (there : id < tree.size) :
    other < tree.size := by
  induction around using ReflTransGen.head_induction_on with
  | refl => exact there
  | head above _ _ => exact linked.parent_lt_size above

/-! #### Moving an element -/

theorem size_detach : (tree.detach id).size = tree.size := by
  unfold detach
  split
  · exact size_update _ _ _
  · rfl

theorem parentOf_detach : (tree.detach id).parentOf other = tree.parentOf other := by
  unfold detach
  split
  · exact parentOf_update_of_same fun _ => rfl
  · rfl

theorem childrenOf_detach : (tree.detach id).childrenOf other =
    if tree.parentOf id = some other then (tree.childrenOf other).erase id else tree.childrenOf other := by
  unfold detach
  cases links : tree.parentOf id with
  | none => simp
  | some parent =>
    dsimp only
    rw [childrenOf_update (fun children => children.erase id) (fun _ => rfl) fun _ => rfl]
    simp only [Option.some.injEq, eq_comm]

theorem parentOf_append (there : child < tree.size) :
    (tree.append parent child).parentOf other = if other = child then some parent else tree.parentOf other := by
  have there' : child < (tree.detach child).size := size_detach.symm ▸ there
  calc (tree.append parent child).parentOf other
      = ((tree.detach child).update child fun e => { e with parent := some parent }).parentOf other :=
        parentOf_update_of_same fun _ => rfl
    _ = if other = child then some parent else (tree.detach child).parentOf other :=
        parentOf_update _ (fun beyond => absurd there' (Nat.not_lt.mpr beyond)) fun _ => rfl
    _ = if other = child then some parent else tree.parentOf other := by rw [parentOf_detach]

theorem childrenOf_append (there : parent < tree.size) : (tree.append parent child).childrenOf other =
    (tree.detach child).childrenOf other ++ if other = parent then [child] else [] := by
  have there' : parent < ((tree.detach child).update child fun e => { e with parent := some parent }).size := by
    rwa [size_update, size_detach]
  have kept : ((tree.detach child).update child fun e => { e with parent := some parent }).childrenOf other =
      (tree.detach child).childrenOf other := childrenOf_update_of_same fun _ => rfl
  unfold append
  rw [childrenOf_update (· ++ [child]) (fun beyond => absurd there' (Nat.not_lt.mpr beyond)) fun _ => rfl,
    kept]
  split <;> simp

/-- An element that is taken out is among no children any more, all others are where they were. -/
theorem Linked.count_detach (linked : tree.Linked) (other counted : ElementId) :
    ((tree.detach id).childrenOf other).count counted =
      if counted = id then 0 else (tree.childrenOf other).count counted := by
  have before := linked.listed other id
  rw [childrenOf_detach]
  by_cases mine : tree.parentOf id = some other
  · rw [if_pos mine] at before ⊢
    by_cases same : counted = id
    · rw [if_pos same, same, List.count_erase_self, before]
    · rw [if_neg same, List.count_erase_of_ne same]
  · rw [if_neg mine] at before ⊢
    by_cases same : counted = id
    · rw [if_pos same, same, before]
    · rw [if_neg same]

/-- From outside of an element nobody gets into it on the way up, and so the way is the old one. -/
theorem acc_of_not_around {after : Tree} (grounded : WellFounded tree.Above)
    (same : ∀ other, other ≠ child → after.parentOf other = tree.parentOf other)
    (outside : ¬ tree.Around child id) : Acc after.Above id := by
  induction id using grounded.induction with
  | h id ih =>
    have other : id ≠ child := by
      rintro rfl
      exact outside .refl
    -- Whoever is not inside the child has the old parent, who is not inside of it either.
    refine .intro id fun parent above => ?_
    have above' : tree.Above parent id := (same id other).symm.trans above
    exact ih parent above' fun around => outside (around.tail above')

/-- An element that is put into one outside of it leads out of the page as that one does. -/
theorem wellFounded_above_append (grounded : WellFounded tree.Above) (there : child < tree.size)
    (outside : ¬ tree.Around child parent) : WellFounded (tree.append parent child).Above := by
  have same (other : ElementId) (apart : other ≠ child) :
      (tree.append parent child).parentOf other = tree.parentOf other := by
    rw [parentOf_append there, if_neg apart]
  have moved : Acc (tree.append parent child).Above child := by
    refine .intro child fun above_ above => ?_
    have up : (tree.append parent child).parentOf child = some above_ := above
    rw [parentOf_append there, if_pos rfl] at up
    cases up
    exact acc_of_not_around grounded same outside
  -- From all others the old way leads up, to the child or past it.
  refine ⟨fun id => ?_⟩
  induction id using grounded.induction with
  | h id ih =>
    by_cases here : id = child
    · exact here ▸ moved
    · exact .intro id fun above_ above => ih above_ ((same id here).symm.trans above)

theorem Linked.append (linked : tree.Linked) (there : parent < tree.size) (there' : child < tree.size)
    (outside : ¬ tree.Around child parent) : (tree.append parent child).Linked where
  listed other counted := by
    rw [childrenOf_append there, parentOf_append there', List.count_append, linked.count_detach]
    by_cases same : counted = child
    · subst same
      by_cases here : other = parent
      · simp [here]
      · simp [here, Ne.symm here]
    · have none_ : (if other = parent then [child] else []).count counted = 0 := by
        split <;> simp [Ne.symm same]
      rw [if_neg same, if_neg same, none_, linked.listed, Nat.add_zero]
  grounded := wellFounded_above_append linked.grounded there' outside

/-- An element that is put into itself is around itself, so only the others may be moved. -/
theorem linked_append_iff (linked : tree.Linked) (there : parent < tree.size) (there' : child < tree.size) :
    (tree.append parent child).Linked ↔ ¬ tree.Around child parent := by
  refine ⟨fun moved around => ?_, linked.append there there'⟩
  -- Below the child nothing has changed, so that its new parent is still inside of it.
  have kept {id : ElementId} (around : tree.Around child id) : (tree.append parent child).Around child id := by
    induction around with
    | refl => exact .refl
    | @tail inner id _ above ih =>
      by_cases here : id = child
      · exact here ▸ .refl
      · refine ih.tail ?_
        unfold Above
        rwa [parentOf_append there', if_neg here]
  have above : (tree.append parent child).Above parent child := by
    unfold Above
    rw [parentOf_append there', if_pos rfl]
  exact moved.grounded.transGen.irrefl.irrefl child (TransGen.tail' (kept around) above)

/-! #### Making an element -/

theorem size_made {e : Element} : size ⟨tree.elements ++ [e]⟩ = tree.size + 1 := List.length_append

/-- An element that is made is in no other one, and has none in it. -/
theorem parentOf_made {e : Element} (alone : e.parent = none) :
    parentOf ⟨tree.elements ++ [e]⟩ other = tree.parentOf other := by
  unfold parentOf get?
  rcases Nat.lt_trichotomy other tree.elements.length with old | rfl | beyond
  · rw [List.getElem?_append_left old]
  · simp [alone]
  · rw [List.getElem?_eq_none (by rwa [List.length_append]), List.getElem?_eq_none (Nat.le_of_lt beyond)]

theorem childrenOf_made {e : Element} (alone : e.children = []) :
    childrenOf ⟨tree.elements ++ [e]⟩ other = tree.childrenOf other := by
  unfold childrenOf get?
  rcases Nat.lt_trichotomy other tree.elements.length with old | rfl | beyond
  · rw [List.getElem?_append_left old]
  · simp [alone]
  · rw [List.getElem?_eq_none (by rwa [List.length_append]), List.getElem?_eq_none (Nat.le_of_lt beyond)]

theorem Linked.made (linked : tree.Linked) {e : Element} (alone : e.parent = none ∧ e.children = []) :
    Linked ⟨tree.elements ++ [e]⟩ where
  listed parent child := by
    rw [childrenOf_made alone.2, parentOf_made alone.1]
    exact linked.listed parent child
  grounded := by
    have same : Above ⟨tree.elements ++ [e]⟩ = tree.Above := by
      funext parent child
      unfold Above
      rw [parentOf_made alone.1]
    exact same ▸ linked.grounded

theorem Linked.create (linked : tree.Linked) (tag : String) (attributes : Table String String) (text : String)
    (there : parent < tree.size) : (tree.create tag attributes text parent).1.Linked := by
  have made := linked.made (e := { tag := Text.lower tag, attributes, text }) ⟨rfl, rfl⟩
  refine made.append ?_ ?_ fun around => ?_
  · rw [size_made]
    exact Nat.lt_succ_of_lt there
  · rw [size_made]
    exact Nat.lt_succ_self _
  -- Nothing but itself is inside the new element.
  rcases ReflTransGen.cases_head around with rfl | ⟨inside, above, -⟩
  · exact Nat.lt_irrefl _ there
  · unfold Above at above
    rw [parentOf_made rfl] at above
    exact Nat.lt_irrefl _ (linked.parent_lt_size above)

/-! #### Setting a text -/

theorem parentOf_orphan (ids : List ElementId) :
    (tree.orphan ids).parentOf other = if other ∈ ids then none else tree.parentOf other := by
  induction ids generalizing tree with
  | nil => rfl
  | cons id rest ih =>
    rw [orphan, ih, parentOf_update none (fun _ => rfl) fun _ => rfl]
    by_cases later : other ∈ rest
    · rw [if_pos later, if_pos (List.mem_cons_of_mem id later)]
    · simp only [later, if_false, List.mem_cons, or_false]

theorem childrenOf_orphan (ids : List ElementId) : (tree.orphan ids).childrenOf other = tree.childrenOf other := by
  induction ids generalizing tree with
  | nil => rfl
  | cons id rest ih =>
    rw [orphan, ih]
    exact childrenOf_update_of_same fun _ => rfl

theorem parentOf_setText (text : String) : (tree.setText id text).parentOf other =
    if other ∈ tree.childrenOf id then none else tree.parentOf other := by
  rw [← parentOf_orphan]
  exact parentOf_update_of_same fun _ => rfl

theorem childrenOf_setText (text : String) : (tree.setText id text).childrenOf other =
    if other = id then [] else tree.childrenOf other := by
  rw [setText, childrenOf_update (fun _ => []) (fun _ => rfl) fun _ => rfl, childrenOf_orphan]

theorem Linked.setText (linked : tree.Linked) (id : ElementId) (text : String) : (tree.setText id text).Linked where
  listed parent child := by
    rw [childrenOf_setText, parentOf_setText]
    by_cases out : child ∈ tree.childrenOf id
    · -- A child of the element was among no other children, and has no parent now.
      have mine : tree.parentOf child = some id := linked.mem_childrenOf_iff.mp out
      rw [if_pos out, if_neg (Option.some_ne_none parent).symm]
      by_cases here : parent = id
      · rw [if_pos here]
        rfl
      · rw [if_neg here, linked.listed, if_neg]
        rw [mine]
        exact fun same => here (Option.some.inj same).symm
    · rw [if_neg out, ← linked.listed]
      by_cases here : parent = id
      · rw [if_pos here, here, List.count_eq_zero.mpr out]
        rfl
      · rw [if_neg here]
  grounded := by
    refine Subrelation.wf (fun {parent child} above => ?_) linked.grounded
    unfold Above at above ⊢
    rw [parentOf_setText] at above
    split at above
    · cases above
    · exact above

/-! #### Rows of changes -/

theorem Linked.step (linked : tree.Linked) (becomes : tree.Becomes next) : next.Linked := by
  obtain ⟨reshaping, allowed, rfl⟩ := becomes
  cases reshaping with
  | create tag attributes text parent => exact linked.create tag attributes text allowed
  | append parent child => exact linked.append allowed.1 allowed.2.1 allowed.2.2
  | setText id text => exact linked.setText id text

theorem Scattered.linked (scattered : tree.Scattered) : tree.Linked := by
  have alone (id : ElementId) : tree.parentOf id = none ∧ tree.childrenOf id = [] := by
    unfold parentOf childrenOf
    cases found : tree.get? id with
    | none => exact ⟨rfl, rfl⟩
    | some e => exact scattered e (List.mem_of_getElem? found)
  refine ⟨fun parent child => by simp [alone], ⟨fun id => .intro id fun parent above => ?_⟩⟩
  unfold Above at above
  rw [(alone id).1] at above
  cases above

theorem Linked.run (linked : start.Linked) (run : ReflTransGen Becomes start tree) : tree.Linked := by
  induction run with
  | refl => exact linked
  | tail _ becomes ih => exact ih.step becomes

/-! ### Going up -/

/-- Going up from an element, or from outside of the page, passes these elements and comes to an end. -/
inductive Upwards (tree : Tree) : Option ElementId → List ElementId → Prop
  | out : Upwards tree none []
  | up {id : ElementId} {rest : List ElementId} (later : Upwards tree (tree.parentOf id) rest) :
      Upwards tree (some id) (id :: rest)

theorem exists_upwards (grounded : WellFounded tree.Above) (id : ElementId) : ∃ path, tree.Upwards (some id) path := by
  induction id using grounded.induction with
  | h id ih =>
    cases links : tree.parentOf id with
    | none => exact ⟨[id], .up (links ▸ .out)⟩
    | some parent =>
      obtain ⟨path, upwards⟩ := ih parent links
      exact ⟨id :: path, .up (links ▸ upwards)⟩

namespace Upwards

theorem mem_iff_of_from {place : Option ElementId} (upwards : tree.Upwards place path) :
    other ∈ path ↔ ∃ id ∈ place, tree.Around other id := by
  induction upwards with
  | out => simp
  | @up id rest later ih =>
    rw [List.mem_cons, ih, Around, eq_comm]
    simp only [Option.mem_def, Option.some.injEq, exists_eq_left']
    rw [ReflTransGen.cases_tail_iff]
    exact or_congr_right (exists_congr fun parent => and_comm)

/-- Those are passed that are around the element. -/
theorem mem_iff (upwards : tree.Upwards (some id) path) : other ∈ path ↔ tree.Around other id := by
  rw [upwards.mem_iff_of_from]
  simp

/-- Nobody is passed twice. -/
theorem nodup (grounded : WellFounded tree.Above) {place : Option ElementId} (upwards : tree.Upwards place path) :
    path.Nodup := by
  induction upwards with
  | out => exact List.nodup_nil
  | @up id rest later ih =>
    refine List.nodup_cons.mpr ⟨fun again => ?_, ih⟩
    obtain ⟨parent, above, around⟩ := later.mem_iff_of_from.mp again
    exact grounded.transGen.irrefl.irrefl id (TransGen.tail' around above)

theorem length_le (linked : tree.Linked) (there : id < tree.size) (upwards : tree.Upwards (some id) path) :
    path.length ≤ tree.size := by
  -- All that are passed are elements of the page, and they are different.
  have inside : path ⊆ List.range tree.size := fun other member =>
    List.mem_range.mpr (linked.lt_size_of_around (upwards.mem_iff.mp member) there)
  simpa using ((upwards.nodup linked.grounded).subperm inside).length_le

theorem ancestorsWithin_eq {steps : Nat} (upwards : tree.Upwards (some id) path) (few : path.length ≤ steps) :
    tree.ancestorsWithin steps id = path := by
  induction steps generalizing id path with
  | zero => cases upwards; simp at few
  | succ steps ih =>
    cases upwards with
    | up later =>
      unfold ancestorsWithin
      cases links : tree.parentOf id with
      | none =>
        rw [links] at later
        cases later
        rfl
      | some parent =>
        rw [links] at later
        exact congrArg (id :: ·) (ih later (by simpa using few))

/-- The way up from an element that is passed is the rest of the way. -/
theorem rest {before behind : List ElementId} {place : Option ElementId}
    (upwards : tree.Upwards place (before ++ found :: behind)) : tree.Upwards (some found) (found :: behind) := by
  induction before generalizing place with
  | nil =>
    cases upwards with
    | up later => exact .up later
  | cons first before ih =>
    cases upwards with
    | up later => exact ih later

end Upwards

/-- The elements around another one, as a page finds them, are those on the way up. -/
theorem Linked.upwards_ancestors (linked : tree.Linked) (there : id < tree.size) :
    tree.Upwards (some id) (tree.ancestors id) := by
  obtain ⟨path, upwards⟩ := exists_upwards linked.grounded id
  rwa [ancestors, upwards.ancestorsWithin_eq (upwards.length_le linked there)]

theorem Linked.contains_iff (linked : tree.Linked) (there : other < tree.size) :
    tree.contains id other = true ↔ tree.Around id other := by
  rw [contains, List.contains_iff_mem, (linked.upwards_ancestors there).mem_iff]

/-- No element is inside itself, so two that are around each other are the same one. -/
theorem Linked.around_antisymm (linked : tree.Linked) (around : tree.Around id other) (back : tree.Around other id) :
    id = other := by
  rcases reflTransGen_iff_eq_or_transGen.mp around with same | inside
  · exact same.symm
  · exact absurd (inside.trans_left back) (linked.grounded.transGen.irrefl.irrefl id)

/-! ### The nearest element with an attribute -/

/-- An element has an attribute and is another one or around it; and it is inside of each other one like that. -/
structure Nearest (tree : Tree) (name : String) (id found : ElementId) : Prop where
  carries : (tree.attribute? found name).isSome
  around : tree.Around found id
  innermost : ∀ other, tree.Around other id → (tree.attribute? other name).isSome → tree.Around other found

theorem Linked.nearest_closest? (linked : tree.Linked) (there : id < tree.size)
    (closest : tree.closest? id name = some found) : tree.Nearest name id found := by
  have upwards := linked.upwards_ancestors there
  obtain ⟨carries, before, behind, whole, others⟩ := List.find?_eq_some_iff_append.mp closest
  refine ⟨carries, upwards.mem_iff.mp (List.mem_of_find?_eq_some closest), fun other around carries' => ?_⟩
  have member : other ∈ before ++ found :: behind := whole ▸ upwards.mem_iff.mpr around
  rcases List.mem_append.mp member with early | late
  · have without := others other early
    rw [carries'] at without
    cases without
  · exact (whole ▸ upwards).rest.mem_iff.mp late

theorem Linked.closest?_eq_none_iff (linked : tree.Linked) (there : id < tree.size) :
    tree.closest? id name = none ↔ ∀ other, tree.Around other id → tree.attribute? other name = none := by
  rw [closest?, List.find?_eq_none]
  simp only [(linked.upwards_ancestors there).mem_iff, Option.not_isSome_iff_eq_none]

theorem Linked.closest?_eq_some_iff (linked : tree.Linked) (there : id < tree.size) :
    tree.closest? id name = some found ↔ tree.Nearest name id found := by
  refine ⟨linked.nearest_closest? there, fun nearest => ?_⟩
  cases closest : tree.closest? id name with
  | none =>
    have without := (linked.closest?_eq_none_iff there).mp closest found nearest.around
    have carries := nearest.carries
    rw [without] at carries
    cases carries
  | some found' =>
    have nearest' := linked.nearest_closest? there closest
    -- Of two nearest elements each one is around the other.
    exact congrArg some (linked.around_antisymm (nearest.innermost found' nearest'.around nearest'.carries)
      (nearest'.innermost found nearest.around nearest.carries))

/-! ### Texts -/

theorem mapM_eq_some {ids : List ElementId} {read : ElementId → Option String} {text : ElementId → String}
    (each : ∀ id ∈ ids, read id = some (text id)) : ids.mapM read = some (ids.map text) := by
  induction ids with
  | nil => rfl
  | cons id rest ih =>
    obtain ⟨here, later⟩ := List.forall_mem_cons.mp each
    rw [List.mapM_cons, here, ih later]
    rfl

/-- Each element that is inside of another one leaves one less to go down. So from some depth on reading comes to an
end, with the same text. -/
theorem Linked.exists_textWithin (linked : tree.Linked) {depth : Nat} (there : id < tree.size)
    (upwards : tree.Upwards (some id) path) (enough : tree.size < depth + path.length) :
    ∃ text, ∀ more, depth ≤ more → tree.textWithin more id = some text := by
  -- The way up grows by one as the depth that is left becomes less by one, and it has no more steps than elements.
  induction depth generalizing id path with
  | zero =>
    have := upwards.length_le linked there
    omega
  | succ depth ih =>
    obtain ⟨e, found⟩ := exists_get? there
    have each (child : ElementId) (member : child ∈ e.children) :
        ∃ text, ∀ more, depth ≤ more → tree.textWithin more child = some text := by
      have above : tree.parentOf child = some id := by
        refine linked.mem_childrenOf_iff.mp ?_
        rwa [childrenOf, found]
      have further : tree.Upwards (some child) (child :: path) := .up (above ▸ upwards)
      refine ih (lt_size_of_parentOf above) further ?_
      rw [List.length_cons]
      omega
    choose! text each using each
    refine ⟨e.text ++ String.join (e.children.map text), fun more le => ?_⟩
    obtain ⟨less, rfl⟩ : ∃ less, more = less + 1 := ⟨more - 1, by omega⟩
    rw [textWithin, found]
    dsimp only
    rw [mapM_eq_some fun child member => each child member less (by omega)]
    rfl

/-- The text of an element is its own text, and behind it those of its children in their order. -/
theorem Linked.text?_eq (linked : tree.Linked) {e : Element} (found : tree.get? id = some e) :
    tree.text? id = some (e.text ++ String.join (e.children.map tree.textOf)) := by
  have there : id < tree.size := (List.getElem?_eq_some_iff.mp found).1
  obtain ⟨path, upwards⟩ := exists_upwards linked.grounded id
  obtain ⟨depth, size⟩ := Nat.exists_eq_succ_of_ne_zero (Nat.ne_zero_of_lt there)
  have each (child : ElementId) (member : child ∈ e.children) :
      tree.textWithin depth child = some (tree.textOf child) := by
    have above : tree.parentOf child = some id := by
      refine linked.mem_childrenOf_iff.mp ?_
      rwa [childrenOf, found]
    have enough : tree.size < depth + (child :: path).length := by
      cases upwards
      simp only [List.length_cons]
      omega
    obtain ⟨text, read⟩ := linked.exists_textWithin (lt_size_of_parentOf above) (.up (above ▸ upwards)) enough
    rw [read depth (Nat.le_refl _), textOf, text?, read tree.size (by omega)]
    rfl
  rw [text?, size, textWithin, found]
  dsimp only
  rw [mapM_eq_some each]
  rfl

/-! ### All pages -/

/-- Whether a change is allowed, as the page itself tells. -/
def permits (tree : Tree) : Reshaping → Bool
  | .create _ _ _ parent => parent < tree.size
  | .append parent child => parent < tree.size && child < tree.size && !tree.contains child parent
  | .setText id _ => id < tree.size

theorem Linked.permits_iff (linked : tree.Linked) (reshaping : Reshaping) :
    tree.permits reshaping = true ↔ tree.Allows reshaping := by
  cases reshaping with
  | create | setText => simp [permits, Allows]
  | append parent child =>
    simp only [permits, Allows, Bool.and_eq_true, decide_eq_true_eq, Bool.not_eq_true', and_assoc]
    refine and_congr_right fun there => and_congr_right fun _ => ?_
    rw [← linked.contains_iff there, Bool.not_eq_true]

/-- A row of changes, as long as each one is permitted. -/
def reshapeAll? : Tree → List Reshaping → Option Tree
  | tree, [] => some tree
  | tree, reshaping :: rest => if tree.permits reshaping then (tree.reshape reshaping).reshapeAll? rest else none

theorem Linked.run_of_reshapeAll? (linked : start.Linked) (changes : List Reshaping)
    (made : start.reshapeAll? changes = some tree) : ReflTransGen Becomes start tree := by
  induction changes generalizing start with
  | nil =>
    obtain rfl := Option.some.inj made
    exact .refl
  | cons reshaping rest ih =>
    unfold reshapeAll? at made
    split at made
    next permitted =>
      have becomes : start.Becomes (start.reshape reshaping) :=
        ⟨reshaping, (linked.permits_iff reshaping).mp permitted, rfl⟩
      exact .head becomes (ih (linked.step becomes) made)
    next => cases made

/-- What is found along the links of a page, from one of its elements. -/
structure Walks (tree : Tree) (id : ElementId) : Prop where
  /-- The way up comes to an end. -/
  ancestors : tree.Upwards (some id) (tree.ancestors id)
  contains : ∀ other < tree.size, tree.contains id other = true ↔ tree.Around id other
  closest : ∀ name found, tree.closest? id name = some found ↔ tree.Nearest name id found
  none_closest : ∀ name, tree.closest? id name = none ↔
    ∀ other, tree.Around other id → tree.attribute? other name = none
  /-- An element has the text that it is given. -/
  text : ∀ text, (tree.setText id text).text? id = some text

theorem Linked.walks (linked : tree.Linked) (there : id < tree.size) : tree.Walks id where
  ancestors := linked.upwards_ancestors there
  contains _ there' := linked.contains_iff there'
  closest _ _ := linked.closest?_eq_some_iff there
  none_closest _ := linked.closest?_eq_none_iff there
  text text := text?_setText tree id text there

/-- Whatever elements there are at first, and whatever is done to them, with no element put into itself: each element
is among the children of its parent, once, and among those of no other one; no element is inside itself; and so the
ways up end, which is how containing elements and nearest ones are found. -/
theorem links_throughout (scattered : start.Scattered) (run : ReflTransGen Becomes start tree) :
    (∀ parent child, (tree.childrenOf parent).count child = if tree.parentOf child = some parent then 1 else 0) ∧
      (∀ id, ¬ TransGen tree.Above id id) ∧ ∀ id < tree.size, tree.Walks id := by
  have linked : tree.Linked := scattered.linked.run run
  exact ⟨linked.listed, linked.grounded.transGen.irrefl.irrefl, fun id there => linked.walks there⟩

private def loose : Tree := ⟨[{ tag := "body" }, { tag := "main" }, { tag := "ul" }]⟩

/-- A list is put into the page and gets an item with a link in it; then the list is moved. -/
private def listMoved : List Reshaping := [.append 0 1, .append 0 2, .create "li" [("oid", "list.tsx:3:5")] "see " 2,
  .create "a" [] "here" 3, .append 1 2, .setText 4 "there"]

private def linkedList : Tree := listMoved.foldl reshape loose

/-- The item is the nearest element with a place around the link, after the list around it was moved. -/
theorem links_of_list :
    (∀ parent child, (linkedList.childrenOf parent).count child =
      if linkedList.parentOf child = some parent then 1 else 0) ∧
      linkedList.closest? 4 "oid" = some 3 ∧ linkedList.Nearest "oid" 4 3 ∧ linkedList.ancestors 4 = [4, 3, 2, 1, 0] := by
  have scattered : loose.Scattered := by
    unfold Scattered
    decide
  have run : ReflTransGen Becomes loose linkedList :=
    scattered.linked.run_of_reshapeAll? listMoved (by decide +kernel)
  have closest : linkedList.closest? 4 "oid" = some 3 := by decide +kernel
  obtain ⟨listed, -, walks⟩ := links_throughout scattered run
  exact ⟨listed, closest, ((walks 4 (by decide +kernel)).closest "oid" 3).mp closest, by decide +kernel⟩

end Retouch.Client.Tree
