import Mathlib.Algebra.Group.Nat.Defs
import Retouch.Proofs.Json.Written
import Retouch.Proofs.Wire.Transform
import Retouch.Service.Connection
import Retouch.Client.Edits

/-!
# Messages that can be read

A message is written as a text on one line, and the other side reads this text. What it reads is the object that was
written, as long as its numbers are not too long to be read. The numbers of a place that an element of the page names
were read themselves, so they are not.

## Main statements

* `sendable_of_parse`: the place that an element names can be told in a message.
* `readable_requestMessage`: so can a request to replace a text at such a place.
* `readable_result`: so can an answer, if what it tells about an error and about reverting the transform can.
-/
namespace Retouch

/-! ### Numbers in texts -/

namespace Text

theorem digitValue?_lt {c : Char} {n : Nat} (digit : digitValue? c = some n) : n < 10 := by
  unfold digitValue? at digit
  split at digit
  · split at digit
    · rename_i plain
      have most : c.toNat ≤ 57 := by
        simp only [Char.isDigit, Bool.and_eq_true, decide_eq_true_eq] at plain
        exact plain.2
      obtain rfl := Option.some.inj digit
      omega
    · cases digit
  · obtain ⟨start, found, rfl⟩ := Option.map_eq_some_iff.mp digit
    have within := List.find?_some found
    simp only [Bool.and_eq_true, decide_eq_true_eq] at within
    omega

/-- A number has no more digits than the text that writes it. -/
theorem digitsValue_lt (cs : List Char) : digitsValue cs < 10 ^ cs.length := by
  have longer (cs : List Char) (n : Nat) :
      cs.foldl (fun n c => 10 * n + (digitValue? c).getD 0) n < (n + 1) * 10 ^ cs.length := by
    induction cs generalizing n with
    | nil => simp
    | cons c rest ih =>
      have digit : (digitValue? c).getD 0 < 10 := by
        cases value : digitValue? c with
        | none => simp
        | some d => exact digitValue?_lt value
      refine Nat.lt_of_lt_of_le (ih _) ?_
      rw [List.length_cons, Nat.pow_succ, Nat.mul_comm (10 ^ rest.length), ← Nat.mul_assoc]
      exact Nat.mul_le_mul_right _ (show 10 * n + (digitValue? c).getD 0 + 1 ≤ (n + 1) * 10 by omega)
  have all := longer cs 0
  rwa [Nat.zero_add, Nat.one_mul] at all

/-- An integer that was read is short enough to be read again. -/
theorem short_of_integer? {cs : List Char} {n : Int} (read : integer? cs = some n) :
    (Nat.toDigits 10 n.toNat).length ≤ Json.integerDigits := by
  unfold integer? at read
  dsimp only at read
  split at read
  · rename_i digits _
    split at read
    · cases read
    · rename_i short
      refine (Nat.length_toDigits_le_iff (by decide) (by decide)).mpr (Nat.lt_of_le_of_lt ?_
        (Nat.lt_of_lt_of_le (digitsValue_lt digits) (Nat.pow_le_pow_right (by decide) (Nat.le_of_not_lt short))))
      obtain rfl := Option.some.inj read
      split <;> omega
  · cases read

end Text

/-! ### Places -/

/-- A place that a message can tell: it is proper, and its numbers are not too long. -/
structure SourceLocator.Sendable (l : SourceLocator) : Prop extends l.Proper where
  shortLine : (Nat.toDigits 10 l.line).length ≤ Json.integerDigits
  shortColumn : (Nat.toDigits 10 l.column).length ≤ Json.integerDigits

namespace SourceLocator

theorem parseElement_eq_ok {oid file : String} {line column : Nat} (read : parseElement oid = .ok (file, line, column)) :
    file ≠ "" ∧ ∃ first second : List Char, ∃ n m : Int, Text.integer? first = some n ∧ Text.integer? second = some m ∧
      1 ≤ n ∧ 1 ≤ m ∧ line = n.toNat ∧ column = m.toNat := by
  unfold parseElement at read
  dsimp only at read
  split at read
  · cases read
  split at read
  · cases read
  rename_i front first second _
  split at read
  · rename_i n m readFirst readSecond
    split at read
    · cases read
    rename_i named
    split at read
    · cases read
    rename_i counted
    obtain ⟨rfl, rfl, rfl⟩ : String.ofList front = file ∧ n.toNat = line ∧ m.toNat = column := by
      simpa using read
    refine ⟨fun empty => named ?_, first, second, n, m, readFirst, readSecond, by omega, by omega, rfl, rfl⟩
    have none : front = [] := by simpa using congrArg String.toList empty
    simp [none]
  · cases read

/-- The place that an element names can be told in a message. -/
theorem sendable_of_parse {oid css : String} {l : SourceLocator} (read : parse oid css = .ok l) : l.Sendable := by
  unfold parse at read
  cases element : parseElement oid with
  | error e =>
    rw [element] at read
    cases read
  | ok found =>
    obtain ⟨file, line, column⟩ := found
    obtain ⟨named, first, second, n, m, readFirst, readSecond, one, one', rfl, rfl⟩ := parseElement_eq_ok element
    have sendable (styleFile : String) (selectors : List String) :
        Sendable ⟨file, n.toNat, m.toNat, styleFile, selectors⟩ :=
      ⟨⟨named, by dsimp only; omega, by dsimp only; omega⟩, Text.short_of_integer? readFirst,
        Text.short_of_integer? readSecond⟩
    rw [element] at read
    dsimp only [bind, Except.bind] at read
    split at read
    · obtain rfl := Except.ok.inj read
      exact sendable _ _
    · cases style : parseStyle css with
      | error e =>
        rw [style] at read
        cases read
      | ok found =>
        rw [style] at read
        obtain rfl := Except.ok.inj read
        exact sendable _ _

open Json in
theorem Sendable.readable {l : SourceLocator} (sendable : l.Sendable) : Readable 2 l.toJson := by
  refine .obj (by simp) ?_
  simp only [List.forall_mem_cons, List.not_mem_nil, false_implies, implies_true, and_true]
  refine ⟨.str _, .int sendable.shortLine, .int sendable.shortColumn, .str _, .arr fun item member => ?_⟩
  obtain ⟨selector, -, rfl⟩ := List.mem_map.mp member
  exact .str selector

/-- A place without its style is told as well. -/
theorem Sendable.withoutStyle {l : SourceLocator} (sendable : l.Sendable) : (Project.withoutStyle l).Sendable :=
  ⟨⟨sendable.file, sendable.line, sendable.column⟩, sendable.shortLine, sendable.shortColumn⟩

end SourceLocator

/-! ### Requests and answers -/

open Json

theorem readable_textChange (prior new : String) : Readable 1 (Change.textUpdate prior new).toJson := by
  refine .obj (by simp) ?_
  simp only [List.forall_mem_cons, List.not_mem_nil, false_implies, implies_true, and_true]
  exact ⟨.str _, .str _⟩

/-- A request to replace a text can be told, if its place can. -/
theorem readable_requestMessage {id prior new : String} {target : SourceLocator} (sendable : target.Sendable) :
    Readable 3 (Client.requestMessage ⟨id, target, .textUpdate prior new⟩) := by
  refine .obj (by simp [Request.members]) ?_
  simp only [Request.members, List.forall_mem_cons, List.not_mem_nil, false_implies, implies_true, and_true]
  exact ⟨.str _, .str _, .str _, sendable.readable, (readable_textChange prior new).mono (by decide)⟩

/-- What reverts the edit of a text can be told, if the place of the text can. -/
theorem readable_undoData {prior new : String} {target : SourceLocator} (sendable : target.Sendable) :
    Readable 3 (UndoData.toJson ⟨target, .textUpdate prior new⟩) := by
  refine .obj (by simp) ?_
  simp only [List.forall_mem_cons, List.not_mem_nil, false_implies, implies_true, and_true]
  exact ⟨.str _, sendable.readable, (readable_textChange prior new).mono (by decide)⟩

theorem readable_transformError {e : TransformError}
    (details : ∀ members, e.details = some members → Readable 2 (.obj members)) : Readable 3 e.toJson := by
  unfold TransformError.toJson
  cases told : e.details with
  | none =>
    refine .obj (by simp) ?_
    simp only [List.append_nil, List.forall_mem_cons, List.not_mem_nil, false_implies, implies_true, and_true]
    exact ⟨.str _, .str _⟩
  | some members =>
    refine .obj (by simp) ?_
    simp only [List.cons_append, List.nil_append, List.forall_mem_cons, List.not_mem_nil, false_implies, implies_true, and_true]
    exact ⟨.str _, .str _, details members told⟩

/-- An answer can be told, if what it tells about an error and about reverting the transform can. -/
theorem readable_result {r : TransformResult} (error : ∀ e, r.error = some e → Readable 3 e.toJson)
    (undo : ∀ u, r.undoData = some u → Readable 3 u.toJson) : Readable 4 (Service.Message.result r).toJson := by
  have files (names : List String) : Readable 3 (strings names) := by
    refine Readable.arr fun item member => ?_
    obtain ⟨name, -, rfl⟩ := List.mem_map.mp member
    exact .str name
  unfold Service.Message.toJson TransformResult.members
  refine .obj ?_ ?_
  · cases r.affectedFiles <;> cases r.error <;> cases r.undoData <;> simp
  · simp only [List.forall_mem_cons, List.forall_mem_append, List.not_mem_nil, false_implies, implies_true, and_true]
    refine ⟨.str _, ⟨⟨⟨.bool _, .str _⟩, ?_⟩, ?_⟩, ?_⟩
    · cases r.affectedFiles with
      | none => simp
      | some names => simpa using files names
    · cases told : r.error with
      | none => simp
      | some e => simpa using error e told
    · cases told : r.undoData with
      | none => simp
      | some u => simpa using undo u told

end Retouch
