import Retouch.Proofs.Client.Apart
import Retouch.Proofs.Client.Consistent
import Retouch.Proofs.Client.Editing
import Retouch.Proofs.Client.Inbound
import Retouch.Proofs.Wire.Message

/-!
# What a client keeps of its requests

A request is put on the list as a pending edit and written to the server, all in one. Until its answer comes, it stays
on the list as it is: other requests have other ids, and only timers that were set for edits that are made take edits
off the list. All that can happen on a page enters one of four things into this ledger, or nothing.

## Main statements

* `framing_posted`: whatever happens to a client makes such entries.
* `Posted.books`: entries keep the books in order, in which all requests that are not answered wait on the list.
-/
namespace Retouch.Client

/-- What is selected, which edits were sent and will be taken off the list by timers, and what was written. -/
structure Ledger where
  selected : Option Selected
  edits : Table String Edit
  sent : Nat
  prunes : List String
  frames : List String

/-- The edits that timers will take off the list. -/
def prunes (timers : List Timer) : List String :=
  timers.filterMap fun timer =>
    match timer.task with
    | .prune id => some id
    | _ => none

/-- The texts that were written, in order. -/
def frames (client : Client) : List String := (written client.effects).map Prod.snd

def ledger (client : Client) : Ledger :=
  { selected := client.selected, edits := client.edits, sent := client.sent, prunes := prunes client.timers
    frames := client.frames }

/-- The text with a request. -/
def frameOf (request : Request) : String := (requestMessage request).write

/-- What one change can enter into the ledger. -/
inductive Entry : Ledger → Ledger → Prop where
  | selected (l : Ledger) (selected : Option Selected)
      (told : ∀ element target, selected = some ⟨element, some target⟩ → target.Sendable) :
    Entry l { l with selected }
  /-- The edit of a text at the selected place is sent, and written if there is a connection. -/
  | sent (l : Ledger) (now : Nat) (element : ElementId) (target : SourceLocator) (prior new : String)
      (timestamp : Float) (lines : List String) (chosen : l.selected = some ⟨element, some target⟩)
      (written : ∀ line ∈ lines, line = frameOf ⟨editId now (l.sent + 1), target, .textUpdate prior new⟩)
      (once : lines.length ≤ 1) :
    Entry l { l with
      edits := l.edits.put (editId now (l.sent + 1)) { type := TransformKind.textUpdate.name, target, timestamp }
      sent := l.sent + 1
      frames := l.frames ++ lines }
  | pruned (l : Ledger) (id : String) (timed : id ∈ l.prunes) : Entry l { l with edits := l.edits.drop id }
  | stopped (l : Ledger) (prunes : List String) (fewer : prunes ⊆ l.prunes) : Entry l { l with prunes }

/-- Entries lead from the ledger of one state to that of another. -/
def Posted (before after : Client) : Prop := Relation.ReflTransGen Entry before.ledger after.ledger

/-! ### Operations -/

section operations

variable (client : Client)

theorem mem_prunes {timers : List Timer} {id : String} :
    id ∈ prunes timers ↔ ∃ timer ∈ timers, timer.task = .prune id := by
  unfold prunes
  rw [List.mem_filterMap]
  refine exists_congr fun timer => and_congr_right fun _ => ?_
  cases timer.task <;> simp

theorem Posted.of_same {before after : Client} (same : after.ledger = before.ledger) : Posted before after := by
  unfold Posted
  rw [same]

/-- The ledger is made from what matters to the edit of a text, and from the timers. -/
theorem ledger_eq : client.ledger =
    ⟨client.desk.selected, client.desk.edits, client.desk.sent, prunes client.timers, client.desk.lines.map Prod.snd⟩ :=
  rfl

theorem timers_cancelEditing : (client.after cancelEditing).timers = client.timers := by
  cases edited : client.session <;> simp [cancelEditing, endSession, edited] <;> rfl

theorem ledger_cancelEditing : (client.after cancelEditing).ledger = client.ledger := by
  rw [ledger_eq, ledger_eq, desk_cancelEditing, timers_cancelEditing]
  simp

theorem ledger_notifying : (notifying client).ledger = client.ledger := by
  have desk := desk_notifying client
  rw [ledger_eq, ledger_eq, desk]
  rfl

theorem ledger_select (id : ElementId) (target : Option SourceLocator) :
    (client.after (select id target)).ledger = { client.ledger with selected := some ⟨id, target⟩ } := by
  unfold select
  simp only [after_bind, after_get, said_get]
  split
  -- The edit of another element is canceled first, which the ledger does not show.
  · rw [after_bind, after_change, ledger_notifying, ← ledger_cancelEditing client]
    rfl
  · rw [after_change, ledger_notifying]
    rfl

theorem ledger_clearSelection : (client.after clearSelection).ledger = { client.ledger with selected := none } := by
  unfold clearSelection
  simp only [after_bind, after_get, said_get]
  split
  · rw [after_bind, after_change, ledger_notifying, ← ledger_cancelEditing client]
    rfl
  · rw [after_change, ledger_notifying]
    rfl

theorem timers_commitEditing (text : String) : (client.after (commitEditing text)).timers = client.timers := by
  unfold commitEditing
  simp only [after_bind, after_get, said_get]
  split
  · split
    · rfl
    · simp only [after_bind, after_modify, after_pure, send, after_get, said_get]
      split
      · simp only [write, after_bind, after_get, said_get]
        split <;> rfl
      · rfl
  · rfl

/-- To commit an edit enters the request that it sends. -/
theorem posted_commitEditing (text : String) : Posted client (client.after (commitEditing text)) := by
  cases edited : client.session with
  | none =>
    refine .of_same ?_
    unfold commitEditing
    simp only [after_bind, after_get, said_get, edited]
    exact ledger_notifying _
  | some session =>
    unfold Posted
    rw [ledger_eq (client.after _), timers_commitEditing, desk_commitEditing client edited]
    cases sends : client.request? session text with
    | none => exact .refl
    | some request =>
      -- A text that was changed at a known place is sent under the next number.
      obtain ⟨-, element, target, chosen, rfl⟩ := request?_eq_some sends
      have entry := Entry.sent client.ledger client.now element target session.prior text (seconds client.now)
        ((client.linesFor ⟨editId client.now (client.sent + 1), target, .textUpdate session.prior text⟩).map Prod.snd)
        chosen ?_ ?_
      · refine .single ?_
        simp only [sentDesk, desk_lines, List.map_append]
        exact entry
      · intro line member
        obtain ⟨written, listed, rfl⟩ := List.mem_map.mp member
        exact eq_of_mem_linesFor listed
      · unfold linesFor
        split
        · split <;> simp
        · simp

theorem ledger_removeEdit (id : String) :
    (client.after (removeEdit id)).ledger = { client.ledger with edits := client.edits.drop id } := by
  simp only [removeEdit, after_bind, after_get, said_get]
  split
  · rw [after_change, ledger_notifying]
    rfl
  · rename_i absent
    have none : client.edits.get? id = none := by simpa [Table.has] using absent
    rw [after_pure, Table.drop_absent client.edits none]
    rfl

theorem prunes_cancel (number : Nat) : prunes (client.after (cancel number)).timers ⊆ prunes client.timers := by
  intro id member
  obtain ⟨timer, set, task⟩ := mem_prunes.mp member
  exact mem_prunes.mpr ⟨timer, (List.mem_filter.mp set).1, task⟩

theorem posted_cancel (number : Nat) : Posted client (client.after (cancel number)) :=
  .single (.stopped client.ledger _ (prunes_cancel client number))

/-- A timer that takes an edit off the list fires. -/
theorem posted_prune {timer : Timer} {id : String} (set : timer ∈ client.timers) (task : timer.task = .prune id) :
    Posted client (client.after (fire timer)) := by
  have timed : id ∈ client.ledger.prunes := mem_prunes.mpr ⟨timer, set, task⟩
  unfold Posted fire
  rw [task, after_bind, runTask, ledger_removeEdit]
  -- The edit goes first and the timer after it: the other way round nothing would say that the edit was timed.
  exact .tail (.single (.pruned client.ledger id timed)) (.stopped _ _ (prunes_cancel client timer.number))

theorem posted_schedule (delay : Number.Amount) {task : Task} (other : ∀ id, task ≠ .prune id) :
    Posted client (client.after (schedule delay task)) := by
  refine .of_same ?_
  have timers : (client.after (schedule delay task)).timers = client.timers ++ [⟨client.timersSet, delay, task⟩] := rfl
  have prunes : prunes (client.after (schedule delay task)).timers = prunes client.timers := by
    rw [timers]
    unfold Client.prunes
    rw [List.filterMap_append]
    cases task with
    | prune id => exact absurd rfl (other id)
    | _ => exact List.append_nil _
  rw [ledger_eq, prunes]
  rfl

/-- A change that is told to the subscribers, of what is pointed at and edited. -/
theorem posted_change {f : Client → Client} (same : (f client).ledger = client.ledger) :
    Posted client (client.after (change f)) :=
  .of_same (by rw [after_change, ledger_notifying, same])

theorem posted_hover (id : ElementId) : Posted client (client.after (hover id)) := by
  unfold hover
  simp only [after_bind, after_get, said_get]
  split
  · exact .refl
  · split
    · split
      · exact posted_change client rfl
      · exact .refl
    · exact posted_change client rfl

end operations

/-- The operations of the client make such entries, so all that happens does. -/
theorem framing_posted : Framing Posted where
  trans := Relation.ReflTransGen.trans
  rest same := .of_same (congrArg (fun core : Core =>
    (⟨core.selected, core.edits, core.sent, prunes core.timers, core.lines.map Prod.snd⟩ : Ledger)) same)
  select client id := by
    unfold Posted
    rw [ledger_select]
    refine .single (.selected _ _ ?_)
    intro element target chosen
    obtain ⟨-, named⟩ := Selected.mk.inj (Option.some.inj chosen)
    -- The place was read from the element, so it can be told.
    unfold elementTarget at named
    dsimp only at named
    split at named
    · rename_i parsed
      obtain rfl := Option.some.inj named
      exact SourceLocator.sendable_of_parse parsed
    · cases named
  clearSelection client := by
    unfold Posted
    rw [ledger_clearSelection]
    exact .single (.selected _ none (by simp))
  hover id client := posted_hover client id
  clearHover client := posted_change client rfl
  startEditing _ client := posted_change client rfl
  endSession client := posted_change client rfl
  commitEditing text client := posted_commitEditing client text
  schedule delay _ other client := posted_schedule client delay other
  cancel number client := posted_cancel client number
  prune client _ _ set task := posted_prune client set task

/-! ### Occurrences -/

/-- Whatever happens on a page without a message coming in: the edits on the list are left to the client, and what is
selected is at a place that can be told. -/
def Occurrence.Plain : Occurrence → Prop
  | .operation (.select _ target) => ∀ place, target = some place → place.Sendable
  | .operation (.putEdit ..) | .operation (.mark ..) | .operation (.removeEdit _) | .operation (.send _) => False
  | .received .. => False
  | _ => True

theorem posted_operation {operation : Operation} (plain : Occurrence.Plain (.operation operation)) :
    Within Posted operation.action := by
  cases operation with
  | select element target =>
    intro client
    unfold Posted
    rw [Operation.action, ledger_select]
    refine .single (.selected _ _ ?_)
    rintro _ place ⟨⟩
    exact plain place rfl
  | clearSelection => exact framing_posted.clearSelection
  | hover element => exact framing_posted.hover element
  | clearHover => exact framing_posted.clearHover
  | startEditing session => exact framing_posted.startEditing session
  | commitEditing text => exact framing_posted.commitEditing text
  | cancelEditing => exact framing_posted.cancelEditing
  | setStatus status error => exact framing_posted.setStatus status error
  | subscribe => exact fun _ => framing_posted.rest rfl
  | unsubscribe subscriber => exact framing_posted.modify fun _ => rfl
  | dispose => exact fun client => .single (.stopped client.ledger [] (List.nil_subset _))
  | putEdit | mark | removeEdit | send => exact plain.elim

theorem posted_occurrence {behaviors : Behaviors} (keep : behaviors.Keep Posted) {occurrence : Occurrence}
    (plain : occurrence.Plain) : Within Posted (occurrence.action behaviors) := by
  cases occurrence with
  | operation operation => exact posted_operation plain
  | event event => exact framing_posted.dispatch keep event
  | focus target => exact framing_posted.moveFocus keep target
  | blur element => exact framing_posted.blur keep element
  | page tree => exact framing_posted.modify fun _ => rfl
  | fire number => exact fun client => framing_posted.fireNumber client number
  | time now => exact framing_posted.modify fun _ => rfl
  | start => exact framing_posted.start
  | destroy =>
    refine framing_posted.bind (framing_posted.modify fun _ => rfl) fun _ => framing_posted.bind framing_posted.close ?_
    exact fun _ client => .single (.stopped client.ledger [] (List.nil_subset _))
  | connect => exact framing_posted.connect
  | close => exact framing_posted.close
  | opened attempt => exact framing_posted.opened attempt
  | refused attempt => exact framing_posted.refused attempt
  | closed attempt => exact framing_posted.closed attempt
  | received attempt frame => exact plain.elim

/-! ### Requests that wait -/

/-- Items with the same key stand at the same place, where keys are distinct. -/
theorem place_eq_of_key {α κ : Type} {key : α → κ} {items : List α} (distinct : (items.map key).Nodup) {m n : Nat}
    {a b : α} (first : items[m]? = some a) (second : items[n]? = some b) (same : key a = key b) : m = n := by
  have keys {k : Nat} {c : α} (here : items[k]? = some c) : (items.map key)[k]? = some (key c) := by
    rw [List.getElem?_map, here]
    rfl
  have bound : m < (items.map key).length := (List.getElem?_eq_some_iff.mp (keys first)).1
  exact (List.getElem?_inj bound distinct).mp ((keys first).trans (same ▸ (keys second).symm))

theorem editId_ne_empty (now number : Nat) : editId now number ≠ "" := by
  obtain ⟨front, text⟩ := toList_editId now number
  intro empty
  rw [empty] at text
  simp at text

namespace Ledger

/-- The id was given to one of the first so many edits. -/
def Given (count : Nat) (id : String) : Prop := ∃ now number, number ≤ count ∧ id = editId now number

/-- A request to replace a text, one of the first so many edits, whose place can be told. -/
structure SentBy (count : Nat) (request : Request) : Prop where
  text : ∃ prior new, request.change = .textUpdate prior new
  sendable : request.target.Sendable
  numbered : Given count request.id

/-- A request is on the list as a pending edit, and no timer will take it off. -/
structure Awaits (l : Ledger) (request : Request) : Prop where
  listed : ∃ edit, l.edits.get? request.id = some edit ∧ edit.outcome = .pending ∧ edit.target = request.target
  untimed : request.id ∉ l.prunes

/-- What was written are these requests, and all that have no answer wait on the list. -/
structure Books (l : Ledger) (requests : List Request) (answered : Nat → Prop) : Prop where
  frames : l.frames = requests.map frameOf
  distinct : (requests.map Request.id).Nodup
  sent : ∀ request ∈ requests, SentBy l.sent request
  selected : ∀ element target, l.selected = some ⟨element, some target⟩ → target.Sendable
  timed : ∀ id ∈ l.prunes, Given l.sent id
  awaits : ∀ (n : Nat) (request : Request), requests[n]? = some request → ¬answered n → l.Awaits request

variable {l l' : Ledger} {requests : List Request} {answered : Nat → Prop}

theorem Books.mono (books : l.Books requests answered) {more : Nat → Prop} (fewer : ∀ n, answered n → more n) :
    l.Books requests more :=
  { books with awaits := fun n request asked open' => books.awaits n request asked fun done => open' (fewer n done) }

theorem Given.succ {count : Nat} {id : String} (given : Given count id) : Given (count + 1) id := by
  obtain ⟨now, number, le, same⟩ := given
  exact ⟨now, number, Nat.le_succ_of_le le, same⟩

theorem SentBy.succ {count : Nat} {request : Request} (sent : SentBy count request) : SentBy (count + 1) request :=
  { sent with numbered := sent.numbered.succ }

/-- The id of the next edit is none of those that were given. -/
theorem Given.ne_next {count : Nat} {id : String} (given : Given count id) (now : Nat) :
    editId now (count + 1) ≠ id := by
  obtain ⟨then', number, le, rfl⟩ := given
  intro same
  -- Ids tell their numbers apart, whatever the time was.
  have := eq_of_editId_eq same
  omega

/-- An edit that is put on the list leaves all requests waiting that were sent before. -/
theorem Awaits.put {request : Request} (awaits : l.Awaits request) (sent : SentBy l.sent request) (now : Nat) (edit : Edit) :
    ∃ kept, (l.edits.put (editId now (l.sent + 1)) edit).get? request.id = some kept ∧ kept.outcome = .pending ∧
      kept.target = request.target := by
  rw [Table.get?_put, if_neg (sent.numbered.ne_next now)]
  exact awaits.listed

/-- The edit of a text is sent: its request is a new one, if it was written. -/
theorem Books.send (books : l.Books requests answered) {now : Nat} {element : ElementId} {target : SourceLocator}
    {prior new : String} {timestamp : Float} {lines : List String} (chosen : l.selected = some ⟨element, some target⟩)
    (written : ∀ line ∈ lines, line = frameOf ⟨editId now (l.sent + 1), target, .textUpdate prior new⟩)
    (once : lines.length ≤ 1) : ∃ requests', requests <+: requests' ∧ Books { l with
      edits := l.edits.put (editId now (l.sent + 1)) { type := TransformKind.textUpdate.name, target, timestamp }
      sent := l.sent + 1
      frames := l.frames ++ lines } requests' answered := by
  set request : Request := ⟨editId now (l.sent + 1), target, .textUpdate prior new⟩ with made
  have old (r : Request) (member : r ∈ requests) : SentBy l.sent r := books.sent r member
  have waiting (n : Nat) (r : Request) (asked : requests[n]? = some r) (open' : ¬answered n) :=
    (books.awaits n r asked open').put (old r (List.mem_of_getElem? asked)) now
      { type := TransformKind.textUpdate.name, target, timestamp }
  -- Without a connection the edit waits on the list, but there is no request that could be answered.
  match lines, once with
  | [], _ =>
    refine ⟨requests, List.prefix_refl _, ⟨by simpa using books.frames, books.distinct,
      fun r member => (old r member).succ, books.selected, fun id member => (books.timed id member).succ,
      fun n r asked open' => ?_⟩⟩
    exact ⟨waiting n r asked open', (books.awaits n r asked open').untimed⟩
  | [line], _ =>
    obtain rfl := written line (List.mem_singleton_self line)
    refine ⟨requests ++ [request], List.prefix_append _ _, ⟨by simp [books.frames], ?_, fun r member => ?_,
      books.selected, fun id member => (books.timed id member).succ, fun n r asked open' => ?_⟩⟩
    -- The new id has a number that no id before it has.
    · rw [List.map_append, List.nodup_append]
      refine ⟨books.distinct, by simp, fun id member other last same => ?_⟩
      obtain ⟨r, listed, rfl⟩ := List.mem_map.mp member
      obtain rfl : other = request.id := by simpa using last
      exact (old r listed).numbered.ne_next now same.symm
    · rcases List.mem_append.mp member with earlier | last
      · exact (old r earlier).succ
      · obtain rfl := List.mem_singleton.mp last
        exact ⟨⟨prior, new, rfl⟩, books.selected element target chosen, now, l.sent + 1, Nat.le_refl _, rfl⟩
    · by_cases earlier : n < requests.length
      · rw [List.getElem?_append_left earlier] at asked
        exact ⟨waiting n r asked open', (books.awaits n r asked open').untimed⟩
      -- The new request itself: it was just put on the list, and no timer can be set for it yet.
      · rw [List.getElem?_append_right (Nat.le_of_not_lt earlier)] at asked
        obtain rfl := List.mem_singleton.mp (List.mem_of_getElem? asked)
        refine ⟨⟨_, by rw [Table.get?_put, if_pos rfl], rfl, rfl⟩, fun timed => ?_⟩
        exact (books.timed _ timed).ne_next now rfl

end Ledger

section books

variable {l l' : Ledger} {requests : List Request} {answered : Nat → Prop}

/-- An entry keeps the books in order. -/
theorem Entry.books (entry : Entry l l') (books : l.Books requests answered) :
    ∃ requests', requests <+: requests' ∧ l'.Books requests' answered := by
  cases entry with
  | selected selected told =>
    refine ⟨requests, List.prefix_refl _, { books with selected := told, awaits := fun n r asked open' => ?_ }⟩
    exact ⟨(books.awaits n r asked open').listed, (books.awaits n r asked open').untimed⟩
  | sent now element target prior new timestamp lines chosen written once => exact books.send chosen written once
  | pruned id timed =>
    refine ⟨requests, List.prefix_refl _, { books with awaits := fun n r asked open' => ?_ }⟩
    have awaits := books.awaits n r asked open'
    refine ⟨?_, awaits.untimed⟩
    -- What a timer takes off the list has its answer: the requests that wait are not timed.
    have apart : id ≠ r.id := by
      rintro rfl
      exact awaits.untimed timed
    rw [Table.get?_drop, if_neg apart]
    exact awaits.listed
  | stopped prunes fewer =>
    refine ⟨requests, List.prefix_refl _, { books with
      timed := fun id member => books.timed id (fewer member), awaits := fun n r asked open' => ?_ }⟩
    have awaits := books.awaits n r asked open'
    exact ⟨awaits.listed, fun timed => awaits.untimed (fewer timed)⟩

/-- Entries keep the books in order. -/
theorem Posted.books {before after : Client} (posted : Posted before after)
    (books : before.ledger.Books requests answered) :
    ∃ requests', requests <+: requests' ∧ after.ledger.Books requests' answered := by
  unfold Posted at posted
  -- The entries one by one; the requests only grow.
  generalize after.ledger = l at posted ⊢
  induction posted with
  | refl => exact ⟨requests, List.prefix_refl _, books⟩
  | tail _ entry ih =>
    obtain ⟨first, longer, books⟩ := ih
    obtain ⟨second, longer', books⟩ := entry.books books
    exact ⟨second, longer.trans longer', books⟩

/-- The edits that a timer will take off the list after a verdict on one. -/
def Verdict.prunes (id : String) : Verdict → List String
  | .committed => [id]
  | .failed _ => []

/-- What a verdict leaves of the ledger. -/
theorem MarksOnly.ledger {client after : Client} {id : String} {edit : Edit} {verdict : Verdict}
    (marks : MarksOnly id edit verdict client after) :
    after.ledger = { client.ledger with
      edits := client.edits.put id (edit.marked verdict)
      prunes := client.ledger.prunes ++ verdict.prunes id } := by
  -- Apart from the list, the timers and what is told, the client is the same.
  have same {α : Type} (f : Client → α) : f { after with
      edits := client.edits, timers := client.timers, timersSet := client.timersSet, effects := client.effects } =
        f client := congrArg f marks.rest
  have selected : after.selected = client.selected := same Client.selected
  have sent : after.sent = client.sent := same Client.sent
  have lines : written after.effects = written client.effects := by
    rw [marks.told, written_append, written_notify, List.append_nil]
  have timers : prunes after.timers = client.ledger.prunes ++ verdict.prunes id := by
    rw [marks.timed]
    unfold prunes
    rw [List.filterMap_append]
    cases verdict <;> rfl
  unfold Client.ledger frames
  rw [marks.marked, selected, sent, lines, timers]
  rfl

/-- A verdict settles the request with its id, and leaves all others waiting. -/
theorem Ledger.Books.marked {client : Client} (books : client.ledger.Books requests answered) {number : Nat}
    {request : Request} (asked : requests[number]? = some request) {edit : Edit}
    (there : client.edits.get? request.id = some edit) (verdict : Verdict) :
    (client.after (mark request.id verdict)).ledger.Books requests fun n => answered n ∨ n = number := by
  have sent := books.sent request (List.mem_of_getElem? asked)
  rw [(marksOnly_mark there verdict).ledger]
  have added {id : String} (member : id ∈ client.ledger.prunes ++ verdict.prunes request.id) :
      id ∈ client.ledger.prunes ∨ id = request.id := by
    refine (List.mem_append.mp member).imp_right fun timed => ?_
    cases verdict with
    | committed => exact List.mem_singleton.mp timed
    | failed error => cases timed
  refine { books with timed := fun id member => ?_, awaits := fun n r asked' open' => ?_ }
  · rcases added member with old | rfl
    · exact books.timed id old
    · exact sent.numbered
  · obtain ⟨unanswered, other⟩ := not_or.mp open'
    have awaits := books.awaits n r asked' unanswered
    -- Different requests have different ids.
    have apart : request.id ≠ r.id := fun same =>
      other (place_eq_of_key books.distinct asked' asked same.symm)
    refine ⟨?_, fun timed => ?_⟩
    · rw [Table.get?_put, if_neg apart]
      exact awaits.listed
    · rcases added timed with old | same
      · exact awaits.untimed old
      · exact apart same.symm

end books

end Retouch.Client
