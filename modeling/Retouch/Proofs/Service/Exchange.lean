import Retouch.Proofs.Client.Ledger
import Retouch.Proofs.Service.Reply

/-!
# A page and its server

A page sends requests to replace texts and goes on; the server takes up its frames one after the other, and its answers
come back in any order. In between anything else may happen on the page, and the files may change. Every answer under
way marks the edit of its own request, which still waits for it, and nothing else: as committed if the text was
replaced, as failed with the message of the server if not.

## Main statements

* `Kept.step`: what one move keeps.
* `correlated_throughout`: in every run, answers go to the edits of their own requests.
-/
namespace Retouch

open Client Service

/-- An answer that is under way. -/
structure Answer where
  /-- Which frame it answers; the first one has the number zero. -/
  number : Nat
  /-- The project as this frame has found it. -/
  found : Project
  text : String

/-- A page and its server, with what is under way between them. -/
structure Exchange where
  client : Client
  project : Project
  /-- How many frames of the page the server has taken up. -/
  taken : Nat := 0
  answers : List Answer := []

namespace Exchange

/-- The server takes up the next frame. -/
def serve (x : Exchange) : Exchange :=
  match x.client.frames[x.taken]? with
  | none => x
  | some frame =>
    let (answer, project) := answerFrame Registry.standard frame x.project
    { x with
      project
      taken := x.taken + 1
      answers := x.answers ++ (answer.toOption.map fun text => ⟨x.taken, x.project, text⟩).toList }

/-- The page takes one of the answers. -/
def deliver (x : Exchange) (k : Nat) : Exchange :=
  match x.answers[k]? with
  | none => x
  | some answer => { x with client := x.client.after (takeFrame answer.text), answers := x.answers.eraseIdx k }

/-- What can happen next. -/
inductive Move where
  | page (occurrence : Occurrence)
  /-- The files change by themselves. -/
  | files (project : Project)
  | serve
  | deliver (k : Nat)

def step (x : Exchange) : Move → Exchange
  | .page occurrence => { x with client := x.client.after (occurrence.action standardBehaviors) }
  | .files project => { x with project }
  | .serve => x.serve
  | .deliver k => x.deliver k

def run (x : Exchange) (moves : List Move) : Exchange := moves.foldl step x

/-- No move puts edits on the list, marks them or takes them off in place of the client. -/
def Move.Plain : Move → Prop
  | .page occurrence => occurrence.Plain
  | _ => True

/-- Nothing was written yet, and no timer is set that takes an edit off the list. -/
structure Begins (x : Exchange) : Prop where
  unwritten : x.client.frames = []
  untimed : prunes x.client.timers = []
  selected : ∀ element target, x.client.selected = some ⟨element, some target⟩ → target.Sendable
  taken : x.taken = 0
  answers : x.answers = []

/-- Answers go to the edits of their own requests. -/
structure Correlated (x : Exchange) (requests : List Request) : Prop where
  /-- What was written are these requests, to replace texts. -/
  written : x.client.frames = requests.map frameOf
  texts : ∀ request ∈ requests, ∃ prior new, request.change = .textUpdate prior new
  distinct : (requests.map Request.id).Nodup
  /-- The edit of a request that was not taken up is pending, and stays on the list. -/
  waiting : ∀ (n : Nat) (request : Request), requests[n]? = some request → x.taken ≤ n → x.client.ledger.Awaits request
  /-- The server has an answer to every frame that it can take up next, whatever the files are by then. -/
  served : ∀ frame, x.client.frames[x.taken]? = some frame → ∀ project,
    ∃ text, (answerFrame Registry.standard frame project).1 = .ok text
  once : (x.answers.map Answer.number).Nodup
  /-- An answer marks the pending edit of its own request, and nothing else, by how this request went. -/
  replied : ∀ answer ∈ x.answers, ∃ request verdict edit, requests[answer.number]? = some request ∧
    Ruling request answer.found verdict ∧ x.client.edits.get? request.id = some edit ∧ edit.outcome = .pending ∧
      edit.target = request.target ∧ x.client.said (takeFrame answer.text) = .ok () ∧
        MarksOnly request.id edit verdict x.client (x.client.after (takeFrame answer.text))

/-! ### What a move keeps -/

/-- Whether the page has taken the answer to a frame. -/
def Answered (x : Exchange) (n : Nat) : Prop := n < x.taken ∧ n ∉ x.answers.map Answer.number

/-- What an answer says is how the request of its frame went. -/
def Replies (requests : List Request) (answer : Answer) : Prop :=
  ∃ request verdict, requests[answer.number]? = some request ∧ Ruling request answer.found verdict ∧
    Client.readFrame answer.text = .ok (some (request.id, verdict))

/-- What holds in the middle of a run. -/
structure Kept (x : Exchange) (requests : List Request) : Prop where
  books : x.client.ledger.Books requests x.Answered
  replies : ∀ answer ∈ x.answers, Replies requests answer
  once : (x.answers.map Answer.number).Nodup
  past : ∀ answer ∈ x.answers, answer.number < x.taken

variable {x : Exchange} {requests : List Request}

theorem Begins.kept (begins : x.Begins) : x.Kept [] := by
  refine ⟨⟨begins.unwritten, List.nodup_nil, by simp, begins.selected, ?_, by simp⟩, ?_, ?_, ?_⟩
  · intro id timed
    have none_timed : x.client.ledger.prunes = [] := begins.untimed
    rw [none_timed] at timed
    cases timed
  · simp [begins.answers]
  · simp [begins.answers]
  · simp [begins.answers]

theorem Replies.mono {longer : List Request} {answer : Answer} (replies : Replies requests answer)
    (more : requests <+: longer) : Replies longer answer := by
  obtain ⟨request, verdict, asked, ruling, read⟩ := replies
  -- Requests are only added at the end, so each keeps its number.
  obtain ⟨rest, rfl⟩ := more
  exact ⟨request, verdict, by rw [List.getElem?_append_left (List.getElem?_eq_some_iff.mp asked).1, asked], ruling, read⟩

/-- A frame is answered by how its request goes. -/
theorem Kept.answers_next (kept : x.Kept requests) {frame : String} (next : x.client.frames[x.taken]? = some frame)
    (project : Project) : ∃ request text verdict, requests[x.taken]? = some request ∧
      (answerFrame Registry.standard frame project).1 = .ok text ∧
      Client.readFrame text = .ok (some (request.id, verdict)) ∧ Ruling request project verdict := by
  have frames : x.client.frames = requests.map frameOf := kept.books.frames
  rw [frames, List.getElem?_map] at next
  -- The frame that comes next is the text of the request of this number.
  obtain ⟨request, asked, rfl⟩ := Option.map_eq_some_iff.mp next
  have sent := kept.books.sent request (List.mem_of_getElem? asked)
  obtain ⟨prior, new, text⟩ := sent.text
  obtain ⟨now, number, -, id⟩ := sent.numbered
  have named : request.id ≠ "" := by
    rw [id]
    exact editId_ne_empty now number
  obtain ⟨answer, verdict, answered, read, ruling⟩ := answerFrame_request text sent.sendable named project
  exact ⟨request, answer, verdict, asked, answered, read, ruling⟩

theorem Kept.serve (kept : x.Kept requests) : x.serve.Kept requests := by
  unfold Exchange.serve
  split
  · exact kept
  · rename_i frame next
    obtain ⟨request, text, verdict, asked, answered, read, ruling⟩ := kept.answers_next next x.project
    rcases outcome : answerFrame Registry.standard frame x.project with ⟨answer, project⟩
    rw [outcome] at answered
    obtain rfl : answer = .ok text := answered
    simp only [Except.toOption, Option.map_some, Option.toList_some]
    have old {answer : Answer} (member : answer ∈ x.answers) : answer.number < x.taken := kept.past answer member
    -- The frame is past now, but its answer is under way, so its request counts as not answered.
    refine ⟨kept.books.mono ?_, ?_, ?_, ?_⟩
    · rintro n ⟨past, done⟩
      refine ⟨Nat.lt_succ_of_lt past, ?_⟩
      rw [List.map_append, List.mem_append, not_or]
      exact ⟨done, by simpa using Nat.ne_of_lt past⟩
    · intro answer member
      rcases List.mem_append.mp member with earlier | last
      · exact kept.replies answer earlier
      · obtain rfl := List.mem_singleton.mp last
        exact ⟨request, verdict, asked, ruling, read⟩
    · rw [List.map_append, List.nodup_append]
      refine ⟨kept.once, by simp, ?_⟩
      rintro n earlier m last rfl
      obtain ⟨answer, member, rfl⟩ := List.mem_map.mp earlier
      have same : answer.number = x.taken := by simpa using last
      exact absurd (old member) (by omega)
    · intro answer member
      rcases List.mem_append.mp member with earlier | last
      · exact Nat.lt_succ_of_lt (old earlier)
      · obtain rfl := List.mem_singleton.mp last
        exact Nat.lt_succ_self _

/-- The request of an answer still waits on the list, and the answer marks just its edit. -/
theorem Kept.marks (kept : x.Kept requests) {answer : Answer} (member : answer ∈ x.answers) :
    ∃ request verdict edit, requests[answer.number]? = some request ∧ Ruling request answer.found verdict ∧
      x.client.edits.get? request.id = some edit ∧ edit.outcome = .pending ∧ edit.target = request.target ∧
        x.client.said (takeFrame answer.text) = .ok () ∧
          x.client.after (takeFrame answer.text) = x.client.after (mark request.id verdict) := by
  obtain ⟨request, verdict, asked, ruling, read⟩ := kept.replies answer member
  -- As long as an answer is under way, the page has not taken one to this frame.
  have open' : ¬x.Answered answer.number := fun done => done.2 (List.mem_map_of_mem member)
  obtain ⟨⟨edit, there, pending, target⟩, -⟩ := kept.books.awaits answer.number request asked open'
  refine ⟨request, verdict, edit, asked, ruling, there, pending, target, ?_, ?_⟩
  · simp [takeFrame, read, said_map]
  · simp [takeFrame, read]

theorem Kept.deliver (kept : x.Kept requests) (k : Nat) : (x.deliver k).Kept requests := by
  unfold Exchange.deliver
  split
  · exact kept
  · rename_i answer here
    have member := List.mem_of_getElem? here
    obtain ⟨request, verdict, edit, asked, -, there, -, -, -, marks⟩ := kept.marks member
    have fewer := List.eraseIdx_sublist x.answers k
    have books := kept.books.marked asked there verdict
    rw [← marks] at books
    refine ⟨books.mono ?_, fun other listed => kept.replies other (fewer.subset listed),
      kept.once.sublist (fewer.map _), fun other listed => kept.past other (fewer.subset listed)⟩
    rintro n (⟨past, done⟩ | rfl)
    · exact ⟨past, fun listed => done ((fewer.map _).subset listed)⟩
    · refine ⟨kept.past answer member, fun listed => ?_⟩
      -- No other answer has this number.
      obtain ⟨other, left, same⟩ := List.mem_map.mp listed
      obtain ⟨j, apart, there'⟩ := List.mem_eraseIdx_iff_getElem?.mp left
      exact apart (place_eq_of_key kept.once there' here same)

/-- A move keeps this, with the requests that it sends. -/
theorem Kept.step (kept : x.Kept requests) {move : Move} (plain : move.Plain) :
    ∃ requests', (x.step move).Kept requests' := by
  cases move with
  -- What happens on the page may send requests; the answers under way keep theirs.
  | page occurrence =>
    have posted := posted_occurrence framing_posted.standardBehaviors plain x.client
    obtain ⟨requests', longer, books⟩ := posted.books kept.books
    exact ⟨requests', books, fun answer member => (kept.replies answer member).mono longer, kept.once, kept.past⟩
  | files project => exact ⟨requests, kept.books, kept.replies, kept.once, kept.past⟩
  | serve => exact ⟨requests, kept.serve⟩
  | deliver k => exact ⟨requests, kept.deliver k⟩

/-! ### Runs -/

theorem run_append (x : Exchange) (moves more : List Move) : x.run (moves ++ more) = (x.run moves).run more :=
  List.foldl_append

theorem Kept.run (kept : x.Kept requests) {moves : List Move} (plain : ∀ move ∈ moves, move.Plain) :
    ∃ requests', (x.run moves).Kept requests' := by
  induction moves generalizing x requests with
  | nil => exact ⟨requests, kept⟩
  | cons move rest ih =>
    obtain ⟨requests', kept⟩ := kept.step (plain move List.mem_cons_self)
    exact ih kept fun other member => plain other (List.mem_cons_of_mem _ member)

theorem Kept.correlated (kept : x.Kept requests) : x.Correlated requests where
  written := kept.books.frames
  texts request member := (kept.books.sent request member).text
  distinct := kept.books.distinct
  waiting n request asked open' := kept.books.awaits n request asked fun done => absurd done.1 (Nat.not_lt.mpr open')
  served frame next project := by
    obtain ⟨-, text, -, -, answered, -⟩ := kept.answers_next next project
    exact ⟨text, answered⟩
  once := kept.once
  replied answer member := by
    obtain ⟨request, verdict, edit, asked, ruling, there, pending, target, taken, marks⟩ := kept.marks member
    exact ⟨request, verdict, edit, asked, ruling, there, pending, target, taken, marks ▸ marksOnly_mark there verdict⟩

/-- In every run, answers go to the edits of their own requests. -/
theorem correlated_throughout (begins : x.Begins) {moves : List Move} (plain : ∀ move ∈ moves, move.Plain) :
    ∃ requests, (x.run moves).Correlated requests := by
  obtain ⟨requests, kept⟩ := begins.kept.run plain
  exact ⟨requests, kept.correlated⟩

/-- The server answers the next frame when it takes it up. -/
theorem Kept.answers_serve (kept : x.Kept requests) (there : x.taken < x.client.frames.length) :
    x.serve.client = x.client ∧ x.serve.taken = x.taken + 1 ∧
      x.serve.answers.map Answer.number = x.answers.map Answer.number ++ [x.taken] := by
  have next := List.getElem?_eq_getElem there
  obtain ⟨-, text, -, -, answered, -⟩ := kept.answers_next next x.project
  unfold Exchange.serve
  rw [next]
  rcases outcome : answerFrame Registry.standard x.client.frames[x.taken] x.project with ⟨answer, project⟩
  rw [outcome] at answered
  obtain rfl : answer = .ok text := answered
  simp [Except.toOption, outcome]

/-- The server answers all frames that it takes up one after the other, each once. -/
theorem Kept.answers_serves (kept : x.Kept requests) {n : Nat} (there : x.taken + n ≤ x.client.frames.length) :
    (x.run (List.replicate n .serve)).answers.map Answer.number =
      x.answers.map Answer.number ++ List.range' x.taken n := by
  induction n generalizing x with
  | zero => exact (List.append_nil _).symm
  | succ n ih =>
    obtain ⟨client, taken, numbers⟩ := kept.answers_serve (by omega)
    have rest := ih kept.serve (by rw [client, taken]; omega)
    rw [numbers, taken, List.append_assoc] at rest
    exact rest

/-- A page that shows two headings, and a server that has one of them. -/
def headings : Exchange where
  client := twoHeadings
  project := { root := .ofText "/page", disk := { nodes := [(["page"], .folder),
    (["page", "a.tsx"], .file ⟨Text.Utf8.encode "<h1>one</h1>;".toList, 0⟩)] } }

theorem begins_headings : headings.Begins :=
  ⟨rfl, rfl, by rintro element target ⟨⟩, rfl, rfl⟩

/-- The texts of both headings are edited. -/
def twoEdits : List Move :=
  [.page (.event (.click (some 1))), .page (.operation (.startEditing ⟨1, "one", ""⟩)),
    .page (.operation (.commitEditing "new")), .page (.event (.click (some 2))),
    .page (.operation (.startEditing ⟨2, "two", ""⟩)), .page (.operation (.commitEditing "other"))]

/-- Both requests are taken up, and their answers are under way. -/
theorem correlated_headings : ∃ requests, (headings.run (twoEdits ++ List.replicate 2 .serve)).Correlated requests ∧
    (headings.run (twoEdits ++ List.replicate 2 .serve)).answers.map Answer.number = [0, 1] := by
  have plain : ∀ move ∈ twoEdits ++ List.replicate 2 .serve, move.Plain := by
    simp [twoEdits, Move.Plain, Occurrence.Plain]
  obtain ⟨requests, correlated⟩ := correlated_throughout begins_headings plain
  obtain ⟨_, kept⟩ := begins_headings.kept.run fun move member => plain move (List.mem_append_left _ member)
  have written : (headings.run twoEdits).taken + 2 ≤ (headings.run twoEdits).client.frames.length := by decide +kernel
  have numbers := kept.answers_serves written
  refine ⟨requests, correlated, ?_⟩
  rw [run_append, numbers]
  decide +kernel

end Exchange

end Retouch
