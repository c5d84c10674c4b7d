import Retouch.Proofs.Client.Page
import Retouch.Proofs.Style.Numeral
import Retouch.Proofs.Table

/-!
# From the opening of an edit to its end

An edit of a text is opened by a double click and ended by a key, a click, the loss of the focus or a double
click elsewhere. The session keeps the text to go back to, but a further double click on the element takes the
text that it has by then. So this is the text that is put back or sent as the one before the change.

## Main statements

* `Editing.outcome`: what becomes of every edit, by the way it ends.
* `Peek.undone_iff`: when an edit that changes nothing leaves the page as it was.
-/
namespace Retouch.Client

/-! ### Ids of edits -/

theorem ofDigitChars_padLeft (width n : Nat) :
    Nat.ofDigitChars 10 (Number.padLeft width (Number.digitChars n)) 0 = n := by
  unfold Number.padLeft
  rw [Nat.ofDigitChars_append, Nat.ofDigitChars_replicate_zero, Nat.mul_zero]
  exact Nat.ofDigitChars_toDigits (by decide) (by decide)

/-- The id of an edit ends with its number. -/
theorem toList_editId (now number : Nat) : ∃ front, (editId now number).toList =
    front ++ '-' :: Number.padLeft 7 (Number.digitChars number) := by
  refine ⟨("text-" ++ toString now).toList, ?_⟩
  unfold editId
  simp only [String.toList_append, String.toList_ofList]
  rw [show "-".toList = ['-'] from rfl, List.append_assoc]
  rfl

theorem eq_of_editId_eq {now now' number number' : Nat} (same : editId now number = editId now' number') :
    number = number' := by
  obtain ⟨front, eq⟩ := toList_editId now number
  obtain ⟨front', eq'⟩ := toList_editId now' number'
  have last (front : List Char) (n : Nat) :
      ((front ++ '-' :: Number.padLeft 7 (Number.digitChars n)).reverse.takeWhile (· ≠ '-')).reverse =
        Number.padLeft 7 (Number.digitChars n) := by
    have digits := Style.isDigit_padLeft (Style.isDigit_digitChars n) 7
    rw [List.reverse_append, List.reverse_cons, List.append_assoc, List.takeWhile_append_of_pos]
    · simp
    · intro c member
      have digit := digits c (List.mem_reverse.mp member)
      have apart : c ≠ '-' := by
        rintro rfl
        cases digit
      simpa using apart
  have ends : Number.padLeft 7 (Number.digitChars number) =
      Number.padLeft 7 (Number.digitChars number') := by
    rw [← last front number, ← last front' number', ← eq, ← eq', same]
  rw [← ofDigitChars_padLeft 7 number, ends, ofDigitChars_padLeft]

/-! ### Edits on the list -/

/-- All edits on the list have ids with the numbers of requests that were sent. -/
def Desk.Numbered (desk : Desk) : Prop :=
  ∀ entry ∈ desk.edits, ∃ now number, number ≤ desk.sent ∧ entry.1 = editId now number

theorem Turn.numbered {client : Client} {doing : Doing} {after : Desk} (turn : Turn client doing after)
    (before : client.desk.Numbered) : after.Numbered := by
  cases turn with
  | rest => exact before
  | typed => exact before
  | pruned number edit => exact fun entry member => before entry (List.mem_filter.mp member).1
  | selected => simpa [Desk.Numbered] using before
  | cleared => simpa [Desk.Numbered] using before
  | canceled => simpa [Desk.Numbered] using before
  | opened => exact before
  | committed _ commits session edited =>
    unfold Client.committed
    cases sends : client.request? session (client.tree.textOf session.element) with
    | none => exact before
    | some request =>
      intro entry member
      rcases Table.mem_put member with rfl | old
      · obtain ⟨-, element, target, -, rfl⟩ := request?_eq_some sends
        exact ⟨client.now, client.sent + 1, Nat.le_refl _, rfl⟩
      · obtain ⟨now, number, le, id⟩ := before entry old
        exact ⟨now, number, Nat.le_succ_of_le le, id⟩

/-- The id of the next request is new. -/
theorem Desk.Numbered.fresh {desk : Desk} (numbered : desk.Numbered) (now : Nat) :
    ∀ entry ∈ desk.edits, entry.1 ≠ editId now (desk.sent + 1) := by
  intro entry member same
  obtain ⟨now', number, le, id⟩ := numbered entry member
  have number_eq := eq_of_editId_eq (id.symm.trans same)
  omega

/-! ### The edit of a text -/

/-- The text of an element is edited in all states of a run. -/
def Stays (id : ElementId) : Client → List Doing → Prop
  | client, [] => client.session.map Session.element = some id
  | client, doing :: rest =>
    client.session.map Session.element = some id ∧ Stays id (doing.after client) rest

instance Stays.decidable (id : ElementId) : (client : Client) → (doings : List Doing) →
    Decidable (Stays id client doings)
  | client, [] => inferInstanceAs (Decidable (client.session.map Session.element = some id))
  | client, doing :: rest =>
    haveI := decidable id (doing.after client) rest
    inferInstanceAs (Decidable (_ ∧ _))

/-- The text that an element had when an edit of it was opened last, in a run or before. -/
def lastOpening (id : ElementId) (known : String) : Client → List Doing → String
  | _, [] => known
  | client, doing :: rest =>
    lastOpening id (if client.opens? doing = some id then client.tree.textOf id else known)
      (doing.after client) rest

/-- An edit of an element is opened by one of the steps. -/
def Reopens (id : ElementId) : Client → List Doing → Prop
  | _, [] => False
  | client, doing :: rest => client.opens? doing = some id ∨ Reopens id (doing.after client) rest

theorem lastOpening_of_not_reopens {id : ElementId} {known : String} {client : Client} {doings : List Doing}
    (calm : ¬Reopens id client doings) : lastOpening id known client doings = known := by
  induction doings generalizing client with
  | nil => rfl
  | cons doing rest ih =>
    obtain ⟨here, later⟩ := not_or.mp calm
    rw [lastOpening, if_neg here]
    exact ih later

/-- While a text is edited, the session knows the text at the last double click. -/
theorem Turn.prior {client : Client} {doing : Doing} {after : Desk} (turn : Turn client doing after)
    {session session' : Session} (edited : client.session = some session) (still : after.session = some session')
    (same : session'.element = session.element) :
    session'.prior = if client.opens? doing = some session.element then client.tree.textOf session.element
      else session.prior := by
  cases turn with
  | rest _ unopened =>
    obtain rfl := Option.some.inj (edited.symm.trans still)
    simp [unopened]
  | typed =>
    obtain rfl := Option.some.inj (edited.symm.trans still)
    simp [opens?]
  | pruned =>
    obtain rfl := Option.some.inj (edited.symm.trans still)
    simp [opens?]
  | selected => simp at still
  | cleared => simp at still
  | canceled => simp at still
  | opened _ id opens =>
    obtain rfl := Option.some.inj still
    obtain rfl : id = session.element := same
    simp [opens]
  | committed => simp at still

theorem Stays.edited {client : Client} {id : ElementId} {doings : List Doing} (stays : Stays id client doings) :
    ∃ session, client.session = some session ∧ session.element = id := by
  cases doings with
  | nil => exact Option.map_eq_some_iff.mp stays
  | cons => exact Option.map_eq_some_iff.mp stays.1

theorem session_of_stays {client : Client} {id : ElementId} {doings : List Doing}
    (stays : Stays id client doings) {session : Session} (edited : client.session = some session) :
    ∃ session', (run client doings).session = some session' ∧ session'.element = id ∧
      session'.prior = lastOpening id session.prior client doings := by
  induction doings generalizing client session with
  | nil =>
    have on : client.session.map Session.element = some id := stays
    rw [edited] at on
    exact ⟨session, edited, Option.some.inj on, rfl⟩
  | cons doing rest ih =>
    obtain ⟨on, stays⟩ := stays
    rw [edited] at on
    have on : session.element = id := Option.some.inj on
    obtain ⟨session', edited', on'⟩ := stays.edited
    obtain ⟨last, found, element, prior⟩ := ih stays edited'
    refine ⟨last, found, element, ?_⟩
    have kept := (turn_after client doing).prior edited edited' (on'.trans on.symm)
    rw [on] at kept
    rw [prior, kept]
    rfl

/-- Steps after which no edit is new on the list, and nothing is written. -/
def SendsNothing : Client → List Doing → Prop
  | _, [] => True
  | client, doing :: rest =>
    (∀ entry ∈ (doing.after client).edits, entry ∈ client.edits) ∧ (doing.after client).desk.lines = [] ∧
      SendsNothing (doing.after client) rest

/-- A step after which a text is edited has not sent anything. -/
theorem Turn.silent {client : Client} {doing : Doing} {after : Desk} (turn : Turn client doing after)
    {session : Session} (edited : after.session = some session) :
    (∀ entry ∈ after.edits, entry ∈ client.edits) ∧ after.lines = client.desk.lines := by
  cases turn with
  | rest => exact ⟨fun _ member => member, rfl⟩
  | typed => exact ⟨fun _ member => member, rfl⟩
  | pruned => exact ⟨fun _ member => (List.mem_filter.mp member).1, rfl⟩
  | opened => exact ⟨fun _ member => member, rfl⟩
  | selected => simp at edited
  | cleared => simp at edited
  | canceled => simp at edited
  | committed => simp at edited

theorem sendsNothing_of_stays {client : Client} {id : ElementId} {doings : List Doing}
    (stays : Stays id client doings) : SendsNothing client doings := by
  induction doings generalizing client with
  | nil => trivial
  | cons doing rest ih =>
    obtain ⟨session, edited, -⟩ := stays.2.edited
    obtain ⟨edits, lines⟩ := (turn_after client doing).silent edited
    exact ⟨edits, lines, ih stays.2⟩

/-- The edit of an element's text on a page, from the step that opens it to the one that ends it. -/
structure Editing (page : Client) where
  element : ElementId
  earlier : List Doing
  opener : Doing
  between : List Doing
  closer : Doing
  opens : (run page earlier).opens? opener = some element
  anew : (run page earlier).session.map Session.element ≠ some element
  stays : Stays element (opener.after (run page earlier)) between
  ends : (closer.after (run (opener.after (run page earlier)) between)).session.map Session.element ≠
    some element

namespace Editing

variable {page : Client} (editing : Editing page)

/-- Where the edit is opened. -/
def before : Client := run page editing.earlier

/-- Where the edit is ended. -/
def last : Client := run (editing.opener.after editing.before) editing.between

def after : Client := editing.closer.after editing.last

def opening : String := editing.before.tree.textOf editing.element

def final : String := editing.last.tree.textOf editing.element

/-- The text at the last double click that opened the edit, or opened it once more. -/
def remembered : String :=
  lastOpening editing.element editing.opening (editing.opener.after editing.before) editing.between

/-- The element is double-clicked once more while it is edited. -/
def IsReopened : Prop := Reopens editing.element (editing.opener.after editing.before) editing.between

/-- Every step on the way to the last one sends nothing. -/
def Silent : Prop := SendsNothing editing.before (editing.opener :: editing.between)

/-- An edit that started from a known text: when it is committed it sends its change, if there is one; any
other edit leaves the known text, and nothing is sent. -/
def Kept (known : String) : Prop :=
  if editing.closer.isCommit then
    editing.after.tree.textOf editing.element = editing.final ∧
      if editing.final = known then
        editing.after.edits = editing.last.edits ∧ editing.after.desk.lines = []
      else ∃ request : Request, request.change = .textUpdate known editing.final ∧
        editing.after.edits = editing.last.edits ++ [(request.id, editing.last.pendingEdit request)] ∧
        editing.after.desk.lines = editing.last.linesFor request
  else
    editing.after.tree.textOf editing.element = known ∧
      editing.after.edits = editing.last.edits ∧ editing.after.desk.lines = []

/-- The edit ends by an edit that is opened on another element, or by being committed while nothing with a
place in the sources is selected. -/
def LosesHold : Prop :=
  (editing.last.opens? editing.closer).isSome ∨
    editing.closer.isCommit ∧ editing.last.selected.bind Selected.target = none

instance : Decidable editing.LosesHold := inferInstanceAs (Decidable (_ ∨ _))

/-- The changed text stays, and nothing is sent. -/
def Abandoned : Prop :=
  editing.after.tree.textOf editing.element = editing.final ∧
    editing.after.edits = editing.last.edits ∧ editing.after.desk.lines = []

theorem session_last : ∃ session, editing.last.session = some session ∧
    session.element = editing.element ∧ session.prior = editing.remembered := by
  have turn := turn_after editing.before editing.opener
  have opens : Client.opens? { editing.before with effects := [] } editing.opener = some editing.element :=
    editing.opens
  have opened := turn.eq_opened opens
  have session : (editing.opener.after editing.before).session = _ := congrArg Desk.session opened
  obtain ⟨last, found, element, prior⟩ := session_of_stays editing.stays session
  exact ⟨last, found, element, prior⟩

theorem last_eq : editing.last = run page (editing.earlier ++ editing.opener :: editing.between) := by
  simp [last, before, run]

theorem there : editing.element < editing.last.tree.size := by
  have size (doings : List Doing) : (run page doings).tree.size = page.tree.size :=
    run_keeps (P := fun desk => desk.tree.size = page.tree.size) (fun _ same => same)
      (fun turn same => turn.size.trans same) rfl doings
  have found := there_of_opens editing.opens
  unfold Tree.get? at found
  have bound : editing.element < (run page editing.earlier).tree.size := by
    simpa [Tree.size] using found
  rwa [last_eq, size, ← size editing.earlier]

theorem numbered (begun : Begun page) : editing.last.desk.Numbered := by
  have start : page.desk.Numbered := by
    intro entry member
    rw [desk_edits, begun.edits] at member
    cases member
  rw [last_eq]
  exact run_keeps (fun _ numbered => numbered) (fun turn numbered => turn.numbered numbered) start _

/-- What becomes of an edit, by what its last step does. -/
theorem turn_closer : Turn { editing.last with effects := [] } editing.closer editing.after.desk :=
  turn_after editing.last editing.closer

theorem silent : editing.Silent := by
  obtain ⟨session, edited, -⟩ := editing.stays.edited
  obtain ⟨edits, lines⟩ := (turn_after editing.before editing.opener).silent edited
  exact ⟨edits, lines, sendsNothing_of_stays editing.stays⟩

theorem outcome_of_canceled (quiet : editing.closer.isCommit = false)
    (unopened : editing.last.opens? editing.closer = none) {selected : Option Selected}
    (desk : editing.after.desk =
      { Client.desk { editing.last with effects := [] } |>.canceled with selected }) :
    if editing.LosesHold then editing.Abandoned else editing.Kept editing.remembered := by
  have holds : ¬editing.LosesHold := by simp [LosesHold, unopened, quiet]
  obtain ⟨session, edited, element, prior⟩ := editing.session_last
  have tree : editing.after.tree = _ := congrArg Desk.tree desk
  have edits : editing.after.edits = _ := congrArg Desk.edits desk
  have lines : editing.after.desk.lines = _ := congrArg Desk.lines desk
  have text : editing.after.tree.textOf editing.element = editing.remembered := by
    rw [tree, ← element, ← prior]
    exact textOf_canceled edited (element ▸ editing.there)
  rw [if_neg holds, Kept, quiet]
  exact ⟨text, edits.trans (edits_canceled _), lines.trans (lines_canceled _)⟩

theorem outcome_of_opened {id : ElementId} (opens : editing.last.opens? editing.closer = some id)
    (desk : editing.after.desk = (Client.desk { editing.last with effects := [] }).opened id) :
    if editing.LosesHold then editing.Abandoned else editing.Kept editing.remembered := by
  have loses : editing.LosesHold := .inl (by rw [opens]; rfl)
  have tree : editing.after.tree = editing.last.tree.mark id := congrArg Desk.tree desk
  have edits : editing.after.edits = editing.last.edits := congrArg Desk.edits desk
  have lines : editing.after.desk.lines = [] := congrArg Desk.lines desk
  rw [if_pos loses, Abandoned, tree, textOf_mark]
  exact ⟨rfl, edits, lines⟩

/-- What is sent when the edit is committed now. -/
def request? : Option Request :=
  match editing.last.selected.bind Selected.target with
  | none => none
  | some target =>
    if editing.final = editing.remembered then none
    else some ⟨editId editing.last.now (editing.last.sent + 1), target,
      .textUpdate editing.remembered editing.final⟩

/-- What a commit leaves behind. -/
theorem after_of_committed {session : Session} (edited : editing.last.session = some session)
    (desk : editing.after.desk = Client.committed { editing.last with effects := [] } session) :
    editing.after.tree.textOf editing.element = editing.final ∧
      match editing.request? with
      | none => editing.after.edits = editing.last.edits ∧ editing.after.desk.lines = []
      | some request =>
        editing.after.edits = editing.last.edits.put request.id (editing.last.pendingEdit request) ∧
          editing.after.desk.lines = editing.last.linesFor request := by
  obtain ⟨session', edited', element, prior⟩ := editing.session_last
  obtain rfl := Option.some.inj (edited.symm.trans edited')
  have tree : editing.after.tree = editing.last.tree.unmark session.element := congrArg Desk.tree desk
  refine ⟨by rw [tree, textOf_unmark]; rfl, ?_⟩
  have sends : Client.request? { editing.last with effects := [] } session
      (editing.last.tree.textOf session.element) = editing.request? := by
    rw [element, Client.request?, Editing.request?, ← prior]
    cases editing.last.selected with
    | none => rfl
    | some selected =>
      obtain ⟨place, target⟩ := selected
      cases target <;> rfl
  have edits : editing.after.edits = _ := congrArg Desk.edits desk
  have lines : editing.after.desk.lines = _ := congrArg Desk.lines desk
  unfold Client.committed at edits lines
  rw [edits, lines]
  simp only [sends]
  cases editing.request? with
  | none => exact ⟨rfl, rfl⟩
  | some request => exact ⟨rfl, rfl⟩

theorem outcome_of_committed (begun : Begun page) (commits : editing.closer.isCommit = true)
    {session : Session} (edited : editing.last.session = some session)
    (desk : editing.after.desk = Client.committed { editing.last with effects := [] } session) :
    if editing.LosesHold then editing.Abandoned else editing.Kept editing.remembered := by
  obtain ⟨text, sent⟩ := editing.after_of_committed edited desk
  have unopened : editing.last.opens? editing.closer = none := opens?_of_isCommit commits
  cases held : editing.last.selected.bind Selected.target with
  | none =>
    have loses : editing.LosesHold := .inr ⟨commits, held⟩
    rw [if_pos loses]
    simp only [request?, held] at sent
    exact ⟨text, sent⟩
  | some target =>
    have holds : ¬editing.LosesHold := by simp [LosesHold, unopened, held]
    rw [if_neg holds, Kept, if_pos commits]
    refine ⟨text, ?_⟩
    split
    · rename_i same
      simpa only [request?, held, same, if_true] using sent
    · rename_i changed
      simp only [request?, held, changed, if_false] at sent
      have fresh := (editing.numbered begun).fresh editing.last.now
      exact ⟨⟨_, target, .textUpdate editing.remembered editing.final⟩, rfl,
        sent.1.trans (Table.put_new _ fresh), sent.2⟩

/-- What becomes of an edit by its last step. -/
theorem outcome_of_turn (begun : Begun page) :
    if editing.LosesHold then editing.Abandoned else editing.Kept editing.remembered := by
  obtain ⟨session, edited, element, prior⟩ := editing.session_last
  have ended (still : editing.after.session = editing.last.session) : False := by
    refine editing.ends ?_
    show editing.after.session.map Session.element = _
    rw [still, edited, Option.map_some, element]
  have turn := editing.turn_closer
  generalize after : editing.after.desk = desk at turn
  generalize closer : editing.closer = doing at turn
  cases turn with
  | rest => exact (ended (congrArg Desk.session after)).elim
  | typed => exact (ended (congrArg Desk.session after)).elim
  | pruned => exact (ended (congrArg Desk.session after)).elim
  | selected target id other => exact editing.outcome_of_canceled (closer ▸ rfl) (closer ▸ rfl) after
  | cleared target => exact editing.outcome_of_canceled (closer ▸ rfl) (closer ▸ rfl) after
  | canceled key escape =>
    have quiet : editing.closer.isCommit = false := by simp [closer, Doing.isCommit, escape]
    exact editing.outcome_of_canceled quiet (closer ▸ rfl) after
  | opened _ id opens => exact editing.outcome_of_opened (closer ▸ opens) after
  | committed _ commits session' edited' =>
    exact editing.outcome_of_committed begun (closer ▸ commits) edited' after

/-- Nothing is sent before the last step of an edit. An edit that is committed sends the change from the text
at the last double click on the element, and one that is canceled leaves this text: it is the text that the
edit was opened with unless the element was double-clicked once more. But by a double click on another element,
or by being committed while nothing with a place in the sources is selected, the edit ends and the changed text
stays. -/
theorem outcome (begun : Begun page) : editing.Silent ∧
    (if editing.LosesHold then editing.Abandoned else editing.Kept editing.remembered) ∧
    (¬editing.IsReopened → editing.remembered = editing.opening) :=
  ⟨editing.silent, editing.outcome_of_turn begun, lastOpening_of_not_reopens⟩

/-- The user clicks a heading, double-clicks it, types and presses the enter key. -/
def heading : Editing twoHeadings where
  element := 1
  earlier := [.event (.click (some 1))]
  opener := .event (.doubleClick (some 1))
  between := [.type 1 "new"]
  closer := .event (.keyDown ⟨"Enter", false⟩)
  opens := by decide +kernel
  anew := by decide +kernel
  stays := by decide +kernel
  ends := by decide +kernel

theorem outcome_heading : Begun twoHeadings ∧ ¬heading.LosesHold ∧ ¬heading.IsReopened ∧
    heading.Silent ∧ heading.Kept "one" := by
  have holds : ¬heading.LosesHold := by decide +kernel
  have calm : ¬heading.IsReopened := by
    rintro (here | none)
    · cases here
    · exact none
  have opening : heading.opening = "one" := by decide +kernel
  have begun : Begun twoHeadings := ⟨rfl, rfl, rfl, rfl⟩
  obtain ⟨silent, kept, remembered⟩ := heading.outcome begun
  rw [if_neg holds, remembered calm, opening] at kept
  exact ⟨begun, holds, calm, silent, kept⟩

/-- The user double-clicks the heading once more after typing, and presses the escape key. -/
def headingReopened : Editing twoHeadings where
  element := 1
  earlier := [.event (.click (some 1))]
  opener := .event (.doubleClick (some 1))
  between := [.type 1 "new", .event (.doubleClick (some 1))]
  closer := .event (.keyDown ⟨"Escape", false⟩)
  opens := by decide +kernel
  anew := by decide +kernel
  stays := by decide +kernel
  ends := by decide +kernel

/-- The escape key leaves the typed text. -/
theorem typed_text_kept : headingReopened.opening = "one" ∧
    headingReopened.after.tree.textOf 1 = "new" ∧ ¬headingReopened.Kept headingReopened.opening := by
  have opening : headingReopened.opening = "one" := by decide +kernel
  have text : headingReopened.after.tree.textOf 1 = "new" := by decide +kernel
  refine ⟨opening, text, ?_⟩
  rw [opening]
  rintro ⟨restored, -⟩
  exact absurd (text.symm.trans restored) (by decide)

end Editing

/-! ### Edits without a change -/

/-- The ways to end the edit of a text without committing it: the escape key, a click, and to clear the selection. -/
inductive Ending where
  | escape (modified : Bool)
  | click (target : Option ElementId)
  | clear
  deriving DecidableEq, Repr

def Ending.action : Ending → Action Unit
  | .escape modified => (Doing.event (.keyDown ⟨"Escape", modified⟩)).action
  | .click target => (Doing.event (.click target)).action
  | .clear => clearSelection

/-- An edit of an element's text on a page that is ended without typing anything. -/
structure Peek (page : Client) where
  element : ElementId
  opener : Doing
  between : List Doing
  ending : Ending
  opens : page.opens? opener = some element
  untyped : ∀ id text, .type id text ∉ between
  stays : Stays element (opener.after page) between
  ends : (Client.after { run (opener.after page) between with effects := [] } ending.action).session.map
    Session.element ≠ some element

/-- The element is marked and nothing else has happened to the page. -/
structure Peeked (tree : Tree) (id : ElementId) (desk : Desk) : Prop where
  marked : desk.tree = tree.mark id
  session : ∃ oid, desk.session = some ⟨id, tree.textOf id, oid⟩

theorem Turn.peeked {client : Client} {doing : Doing} {after : Desk} (turn : Turn client doing after) {tree : Tree}
    {id : ElementId} (peeked : Peeked tree id client.desk) (untyped : ∀ id text, doing ≠ .type id text)
    (still : after.session.map Session.element = some id) : Peeked tree id after := by
  cases turn with
  | rest => exact peeked
  | typed other text => exact absurd rfl (untyped other text)
  | pruned => exact ⟨peeked.marked, peeked.session⟩
  | opened _ other opens =>
    obtain rfl : other = id := Option.some.inj still
    have marked : client.tree = tree.mark other := peeked.marked
    refine ⟨?_, ((tree.mark other).attribute? other placeAttribute).getD "", ?_⟩
    · rw [Desk.opened, desk_tree, marked, mark_mark]
    · rw [Desk.opened, desk_tree, marked, textOf_mark]
  | selected => simp at still
  | cleared => simp at still
  | canceled => simp at still
  | committed => simp at still

/-- An event that ends an edit without committing it cancels it. -/
theorem Turn.canceled_of_ended {client : Client} {e : Event} {after : Desk} (turn : Turn client (.event e) after)
    (quiet : Doing.isCommit (.event e) = false) (unopened : client.opens? (.event e) = none)
    (ended : after.session ≠ client.session) : after.tree = client.desk.canceled.tree := by
  cases turn with
  | rest => exact absurd rfl ended
  | opened _ id opens =>
    rw [unopened] at opens
    cases opens
  | committed _ commits =>
    rw [quiet] at commits
    cases commits
  | selected => rfl
  | cleared => rfl
  | canceled => rfl

namespace Peek

variable {page : Client} (peek : Peek page)

/-- What the edit is like before it is ended. -/
def last : Client := { run (peek.opener.after page) peek.between with effects := [] }

def after : Client := peek.last.after peek.ending.action

theorem peeked_last : Peeked page.tree peek.element peek.last.desk := by
  have start : Peeked page.tree peek.element (peek.opener.after page).desk := by
    have opens : Client.opens? { page with effects := [] } peek.opener = some peek.element := peek.opens
    rw [(turn_after page peek.opener).eq_opened opens]
    exact ⟨rfl, _, rfl⟩
  have all {client : Client} {doings : List Doing} (untyped : ∀ id text, .type id text ∉ doings)
      (stays : Stays peek.element client doings) (peeked : Peeked page.tree peek.element client.desk) :
      Peeked page.tree peek.element (run client doings).desk := by
    induction doings generalizing client with
    | nil => exact peeked
    | cons doing rest ih =>
      have here : ∀ id text, doing ≠ .type id text := fun id text same => untyped id text (by simp [same])
      have later : ∀ id text, .type id text ∉ rest := fun id text member => untyped id text (by simp [member])
      obtain ⟨session, edited, same⟩ := stays.2.edited
      have still : (doing.after client).desk.session.map Session.element = some peek.element :=
        Option.map_eq_some_iff.mpr ⟨session, edited, same⟩
      exact ih later stays.2 ((turn_after client doing).peeked ⟨peeked.marked, peeked.session⟩ here still)
  have ended := all peek.untyped peek.stays start
  exact ⟨ended.marked, ended.session⟩

theorem tree_after : peek.after.tree =
    ((page.tree.mark peek.element).setText peek.element (page.tree.textOf peek.element)).unmark peek.element := by
  obtain ⟨marked, oid, session⟩ := peek.peeked_last
  have ended : peek.after.session ≠ peek.last.session := by
    intro still
    refine peek.ends ?_
    change peek.after.session.map Session.element = _
    rw [still]
    exact congrArg (Option.map Session.element) session
  have canceled : peek.after.tree = peek.last.desk.canceled.tree := by
    have turned {e : Event} (same : (Doing.event e).after peek.last = peek.after)
        (quiet : Doing.isCommit (.event e) = false) (unopened : peek.last.opens? (.event e) = none) :
        peek.after.tree = peek.last.desk.canceled.tree := by
      have turn := turn_after peek.last (.event e)
      rw [same] at turn
      exact turn.canceled_of_ended quiet unopened ended
    have ends : peek.last.after peek.ending.action = peek.after := rfl
    cases ending : peek.ending with
    | escape modified => exact turned (e := .keyDown ⟨"Escape", modified⟩) (by rw [after, ending]; rfl) rfl rfl
    | click target => exact turned (e := .click target) (by rw [after, ending]; rfl) rfl rfl
    | clear =>
      rw [ending] at ends
      rw [← ends]
      exact congrArg Desk.tree (desk_clearSelection peek.last)
  rw [canceled]
  simp only [Desk.canceled, session, marked]

/-- An edit that is ended without typing and without a commit leaves the page as it was just if nothing is inside the
element, and the user could not type into it before. Otherwise the text that the element has with all in it is the same,
and so are the tags, the attributes and the marks of all elements if it was not marked; but what was inside is taken
out. -/
theorem undone_iff : ∃ e, page.tree.get? peek.element = some e ∧
    (peek.after.tree = page.tree ↔ e.children = [] ∧ e.Unmarked) ∧
    peek.after.tree.textOf peek.element = page.tree.textOf peek.element ∧
    peek.after.tree.childrenOf peek.element = [] ∧
    (e.Unmarked → ∀ id, (peek.after.tree.get? id).map Element.look = (page.tree.get? id).map Element.look) := by
  obtain ⟨e, found⟩ := Option.isSome_iff_exists.mp (there_of_opens peek.opens)
  have inside : peek.element < page.tree.size := (List.getElem?_eq_some_iff.mp found).1
  refine ⟨e, found, ?_, ?_, ?_, ?_⟩
  · rw [tree_after]
    exact restored_eq_iff page.tree peek.element found
  · rw [tree_after, textOf_unmark, Tree.textOf, Tree.text?_setText, Option.getD_some]
    rwa [Tree.mark, Tree.size_update, Tree.size_update]
  · rw [tree_after, Tree.childrenOf, get?_restored, Option.map_map]
    generalize Tree.get? _ _ = other
    cases other <;> rfl
  · intro unmarked id
    rw [tree_after, get?_unmark]
    split
    · rename_i here
      subst here
      have look := congrArg (Option.map fun look : String × Table String String × Bool × Table String String =>
        (look.1, look.2.1, false, look.2.2.2.drop editingKey))
        (look_setText (page.tree.mark peek.element) peek.element peek.element (page.tree.textOf peek.element))
      have absent : e.dataset.get? editingKey = none := by simpa [Table.has] using unmarked.2
      rw [get?_mark, if_pos rfl, found] at look
      simp only [Option.map_map, Option.map_some] at look
      rw [Option.map_map, found]
      refine look.trans ?_
      simp [Element.look, Table.drop_put_absent e.dataset absent, unmarked.1]
    · rename_i apart
      rw [look_setText, get?_mark, if_neg apart]

/-- A heading is double-clicked, and the escape key is pressed. -/
def heading : Peek twoHeadings where
  element := 1
  opener := .event (.doubleClick (some 1))
  between := [.event (.mouseMove (some 2)), .event (.doubleClick (some 1))]
  ending := .escape false
  opens := by decide +kernel
  untyped := by simp
  stays := by decide +kernel
  ends := by decide +kernel

theorem undone_heading : heading.after.tree = twoHeadings.tree := by
  obtain ⟨e, found, undone, -⟩ := heading.undone_iff
  have known : twoHeadings.tree.get? 1 = some
      { tag := "h1", attributes := [("oid", "a.tsx:1:1")], text := "one", parent := some 0 } := by decide +kernel
  obtain rfl := Option.some.inj (known.symm.trans found)
  exact undone.mpr ⟨rfl, rfl, rfl⟩

/-- A page with a paragraph in which there is a word in bold. -/
def boldWord : Client where
  tree := ⟨[{ tag := "body", children := [1] },
    { tag := "p", attributes := [("oid", "a.tsx:1:1")], text := "Hello ", parent := some 0, children := [2] },
    { tag := "b", text := "World", parent := some 1 }]⟩
  listening := true

/-- The paragraph is double-clicked, and the escape key is pressed. -/
def paragraph : Peek boldWord where
  element := 1
  opener := .event (.doubleClick (some 1))
  between := []
  ending := .escape false
  opens := by decide +kernel
  untyped := by simp
  stays := by decide +kernel
  ends := by decide +kernel

theorem word_taken_out : boldWord.tree.contains 1 2 = true ∧ paragraph.after.tree.contains 1 2 = false ∧
    paragraph.after.tree ≠ boldWord.tree := by
  decide +kernel

end Peek

end Retouch.Client
