import Retouch.Proofs.Markup.Place

/-!
# Elements with another text

When the text of an element is replaced, its children are read anew: the new text and what of the old one stays
around it are read as a stretch of text, which ends at the next tag or brace, and all other children stay.

## Main statements

* `readChildren_stretch`: so a stretch is read among the children of an element.
* `charsOf_retold`: the new children are those of the new source.
-/
namespace Retouch.Markup

variable {tags : Bool} {fuel : Nat} {cs front rest tail new : List Char} {c : Char} {piece : Piece}
  {children pieces : List Piece}

/-! ### Stretches of text -/

/-- Cuts behind the first piece of a stretch of text. -/
def cutPiece : List Char → Option (Piece × List Char)
  | [] => none
  | c :: rest =>
    if c = '&' then
      match cutReference (c :: rest) with
      | some (reference, rest) => some (.reference reference, rest)
      | none => some (.stray [c], rest)
    else if endsText c then some (.stray [c], rest)
    else
      let run := (c :: rest).takeWhile fun d => !endsText d
      some (if isText false run then .text run else .code run, (c :: rest).dropWhile fun d => !endsText d)

/-- A text goes on to the next sign that ends it. -/
theorem cutPiece_of_text (plain : endsText c = false) : cutPiece (c :: rest) =
    some (if isText false ((c :: rest).takeWhile fun d => !endsText d)
      then .text ((c :: rest).takeWhile fun d => !endsText d)
      else .code ((c :: rest).takeWhile fun d => !endsText d), (c :: rest).dropWhile fun d => !endsText d) := by
  have sign : ¬c = '&' := by
    rintro rfl
    cases plain
  unfold cutPiece
  dsimp only
  rw [if_neg sign, if_neg (by simp [plain])]

def readStretch : Nat → List Char → List Piece
  | 0, _ => []
  | fuel + 1, cs =>
    match cutPiece cs with
    | some (piece, rest) => piece :: readStretch fuel rest
    | none => []

/-- Reads a stretch of text: texts, references to characters, and signs that fit nowhere. -/
def stretch (cs : List Char) : List Piece := readStretch (cs.length + 1) cs

theorem charsOf_cutPiece (cut : cutPiece cs = some (piece, rest)) : piece.chars ++ rest = cs := by
  unfold cutPiece at cut
  split at cut
  · cases cut
  · split at cut
    · split at cut
      · rename_i reference
        cases cut
        exact cuts_reference _ _ _ reference
      · cases cut
        rfl
    · split at cut
      · cases cut
        rfl
      · dsimp only at cut
        cases cut
        split <;> exact List.takeWhile_append_dropWhile

theorem cutReference_ne_nil (cut : cutReference cs = some (front, rest)) : front ≠ [] := by
  unfold cutReference at cut
  split at cut
  · split at cut <;> obtain ⟨_, -, same⟩ := Option.map_eq_some_iff.mp cut <;> cases same <;> simp
  · obtain ⟨_, -, same⟩ := Option.map_eq_some_iff.mp cut
    cases same
    simp
  · cases cut

theorem length_cutPiece (cut : cutPiece cs = some (piece, rest)) : rest.length < cs.length := by
  have whole := congrArg List.length (charsOf_cutPiece cut)
  rw [List.length_append] at whole
  have filled : 0 < piece.chars.length := by
    unfold cutPiece at cut
    split at cut
    · cases cut
    · split at cut
      · split at cut
        · rename_i reference
          cases cut
          exact List.length_pos_iff.mpr (cutReference_ne_nil reference)
        · cases cut
          exact Nat.one_pos
      · split at cut
        · cases cut
          exact Nat.one_pos
        · rename_i plain
          dsimp only at cut
          cases cut
          have first : (!endsText ‹Char›) = true := by simpa using plain
          split <;> simp [Piece.chars, first]
  omega

theorem cutPiece_eq_none : cutPiece cs = none ↔ cs = [] := by
  constructor
  · intro none
    unfold cutPiece at none
    split at none
    · rfl
    · split at none
      · split at none <;> cases none
      · split at none <;> cases none
  · rintro rfl
    rfl

/-- Fuel for each character is enough. -/
theorem readStretch_of_lt {cs : List Char} (enough : cs.length < fuel) : readStretch fuel cs = stretch cs := by
  suffices all : ∀ more fuel (cs : List Char), cs.length < fuel → cs.length < more →
      readStretch fuel cs = readStretch more cs from all _ _ _ enough (Nat.lt_succ_self _)
  intro more
  induction more with
  | zero => intro _ _ _ impossible; omega
  | succ more ih =>
    intro fuel cs one two
    obtain ⟨fuel, rfl⟩ := Nat.exists_eq_succ_of_ne_zero (Nat.pos_iff_ne_zero.mp (Nat.zero_lt_of_lt one))
    rw [readStretch, readStretch]
    split
    · rename_i piece rest cut
      have shorter := length_cutPiece cut
      rw [ih fuel rest (by omega) (by omega)]
    · rfl

@[simp] theorem stretch_nil : stretch [] = [] := rfl

/-- The first piece of a stretch, and the stretch behind it. -/
theorem stretch_of_cut (cut : cutPiece cs = some (piece, rest)) : stretch cs = piece :: stretch rest := by
  rw [stretch, readStretch, cut]
  dsimp only
  rw [readStretch_of_lt (length_cutPiece cut)]

/-- Stretches are followed piece by piece. -/
theorem stretch_induction {motive : List Char → Prop} (empty : motive [])
    (step : ∀ cs piece rest, cutPiece cs = some (piece, rest) → motive rest → motive cs) (cs : List Char) :
    motive cs := by
  induction size : cs.length using Nat.strong_induction_on generalizing cs with
  | _ size ih =>
    cases cut : cutPiece cs with
    | none =>
      rw [cutPiece_eq_none] at cut
      exact cut ▸ empty
    | some parts =>
      obtain ⟨piece, rest⟩ := parts
      exact step cs piece rest cut (ih _ (size ▸ length_cutPiece cut) rest rfl)

theorem charsOf_stretch (cs : List Char) : charsOf (stretch cs) = cs := by
  induction cs using stretch_induction with
  | empty => rfl
  | step cs piece rest cut ih => rw [stretch_of_cut cut, charsOf_cons, ih, charsOf_cutPiece cut]

/-! ### Stretches among children -/

/-- No stretch of text goes on here. -/
def EndsStretch (tail : List Char) : Prop := ∀ c, tail.head? = some c → isMarkupMark c = true

theorem EndsStretch.breaks (ends : EndsStretch tail) : Breaks tail := by
  intro c first
  have mark := ends c first
  simp only [isMarkupMark, Bool.or_eq_true, decide_eq_true_eq] at mark
  rcases mark with ((rfl | rfl) | rfl) | rfl <;> decide

/-- A text ends in its stretch. -/
theorem text_append (ends : EndsStretch tail) (cs : List Char) :
    (cs ++ tail).takeWhile (fun d => !endsText d) = cs.takeWhile (fun d => !endsText d) ∧
      (cs ++ tail).dropWhile (fun d => !endsText d) = cs.dropWhile (fun d => !endsText d) ++ tail := by
  have none : tail.takeWhile (fun d => !endsText d) = [] := by
    cases tail with
    | nil => rfl
    | cons d tail =>
      have mark := ends d rfl
      simp only [isMarkupMark, Bool.or_eq_true, decide_eq_true_eq] at mark
      rw [List.takeWhile_cons_of_neg]
      rcases mark with ((rfl | rfl) | rfl) | rfl <;> decide
  have front : (cs ++ tail).takeWhile (fun d => !endsText d) = cs.takeWhile (fun d => !endsText d) := by
    rw [List.takeWhile_append]
    split
    · rename_i whole
      rw [none, List.append_nil, (List.takeWhile_prefix _).eq_of_length whole]
    · rfl
  refine ⟨front, ?_⟩
  have whole := List.takeWhile_append_dropWhile (p := fun d => !endsText d) (l := cs ++ tail)
  have part := List.takeWhile_append_dropWhile (p := fun d => !endsText d) (l := cs)
  rw [front] at whole
  refine List.append_cancel_left (whole.trans ?_)
  rw [← List.append_assoc, part]

theorem readChildren_cut (ends : EndsStretch tail) (unmarked : Unmarked cs)
    (cut : cutPiece cs = some (piece, rest)) :
    readChildren tags (fuel + 1) (cs ++ tail) = (readChildren tags fuel (rest ++ tail)).map (.push piece) := by
  unfold cutPiece at cut
  split at cut
  · cases cut
  · rename_i c cs
    have mark : isMarkupMark c = false := unmarked c List.mem_cons_self
    simp only [isMarkupMark, Bool.or_eq_false_iff, decide_eq_false_iff_not] at mark
    obtain ⟨⟨⟨brace, close⟩, tag⟩, sign⟩ := mark
    have reads := cutReference_append ends.breaks (c :: cs)
    rw [List.cons_append] at reads ⊢
    rw [readChildren.eq_3, if_neg tag, if_neg brace]
    split at cut
    · rename_i reference
      rw [if_pos reference, reads]
      split at cut
      · rename_i found
        cases cut
        rw [found]
        rfl
      · rename_i missing
        cases cut
        rw [missing]
        rfl
    · rename_i plain
      have text : endsText c = false := by simp [endsText, tag, sign, brace, close, plain]
      rw [if_neg (by simp [text])] at cut
      dsimp only at cut
      cases cut
      have parts := text_append ends (c :: cs)
      rw [List.cons_append] at parts
      rw [if_neg plain, if_neg (by simp [sign, close])]
      dsimp only
      rw [parts.1, parts.2]

/-- So a stretch of text is read among the children of an element. -/
theorem readChildren_stretch (ends : EndsStretch tail) (unmarked : Unmarked cs) :
    readChildren tags (fuel + (stretch cs).length) (cs ++ tail) =
      (readChildren tags fuel tail).map fun body => { body with children := stretch cs ++ body.children } := by
  induction cs using stretch_induction with
  | empty => simp
  | step cs piece rest cut ih =>
    rw [stretch_of_cut cut, List.length_cons, ← Nat.add_assoc, readChildren_cut ends unmarked cut, ih]
    · simp [Function.comp_def, Body.push]
    · have whole := charsOf_cutPiece cut
      rw [← whole, unmarked_append] at unmarked
      exact unmarked.2

/-! ### Children with another text -/

/-- Whether the text of an element begins with the piece. -/
def Piece.beginsRun : Piece → Bool
  | .text t => !t.all Text.isPlainBlank
  | _ => false

/-- The children of an element after its text was replaced: a stretch is read anew, between the children that
stay. -/
def retold (children : List Piece) (new : List Char) : List Piece :=
  match children.dropWhile fun piece => !piece.beginsRun with
  | first :: rest =>
    let run := runFrom [] (first :: rest)
    let old := charsOf ((first :: rest).takeWhile fun piece => !piece.isSolid)
    (children.takeWhile fun piece => !piece.beginsRun) ++
      stretch (run.takeWhile Text.isBlank ++ new ++ trailing run ++ old.drop run.length) ++
      (first :: rest).dropWhile fun piece => !piece.isSolid
  | [] =>
    if children.any Piece.isSolid then
      stretch (new ++ charsOf (children.takeWhile fun piece => !piece.isSolid)) ++
        children.dropWhile fun piece => !piece.isSolid
    else stretch new

theorem textRun?_eq (children : List Piece) : textRun? children =
    match children.dropWhile fun piece => !piece.beginsRun with
    | first :: rest => some (charsOf (children.takeWhile fun piece => !piece.beginsRun), runFrom [] (first :: rest))
    | [] => none := by
  induction children with
  | nil => rfl
  | cons piece rest ih =>
    by_cases begins : piece.beginsRun = true
    · rw [List.dropWhile_cons_of_neg (by simp [begins]), List.takeWhile_cons_of_neg (by simp [begins])]
      cases piece with
      | text t =>
        have solid : ¬t.all Text.isPlainBlank = true := by simpa [Piece.beginsRun] using begins
        simp [textRun?, solid, runFrom]
      | code | stray | reference | braces | element => simp [Piece.beginsRun] at begins
    · rw [List.dropWhile_cons_of_pos (by simpa using begins), List.takeWhile_cons_of_pos (by simpa using begins)]
      have next : textRun? (piece :: rest) =
          (textRun? rest).map fun parts => (piece.chars ++ parts.1, parts.2) := by
        cases piece with
        | text t =>
          have blank : t.all Text.isPlainBlank = true := by simpa [Piece.beginsRun] using begins
          rw [textRun?]
          dsimp only
          rw [if_pos blank]
        | code | stray | reference | braces | element => rfl
      rw [next, ih]
      split <;> simp

/-- A run lies in one stretch of text. -/
theorem runFrom_flat (gap : List Char) (pieces : List Piece) :
    runFrom gap (pieces.takeWhile fun piece => !piece.isSolid) = runFrom gap pieces := by
  fun_induction runFrom gap pieces with
  | case1 gap t rest ih => rw [List.takeWhile_cons_of_pos rfl, runFrom, ih]
  | case2 gap t rest ih => rw [List.takeWhile_cons_of_pos rfl, runFrom, ih]
  | case3 gap t rest ih => rw [List.takeWhile_cons_of_pos rfl, runFrom, ih]
  | case4 pieces gap text reference code =>
    cases pieces with
    | nil => rfl
    | cons piece rest =>
      cases piece with
      | text t => exact absurd rfl (text t rest)
      | reference t => exact absurd rfl (reference t rest)
      | code t => exact absurd rfl (code t rest)
      | stray | braces | element => rfl

/-- The new children are those of the new source. -/
theorem charsOf_retold (children : List Piece) (new : List Char) :
    charsOf (retold children new) = renewed children new := by
  unfold retold renewed
  rw [textRun?_eq]
  cases run : children.dropWhile fun piece => !piece.beginsRun with
  | nil =>
    dsimp only
    split
    · have parts := congrArg charsOf
        (List.takeWhile_append_dropWhile (p := fun piece : Piece => !piece.isSolid) (l := children))
      rw [charsOf_append] at parts
      rw [charsOf_append, charsOf_stretch, List.append_assoc, parts]
    · exact charsOf_stretch new
  | cons first rest =>
    dsimp only
    have whole := congrArg charsOf
      (List.takeWhile_append_dropWhile (p := fun piece : Piece => !piece.beginsRun) (l := children))
    have parts := congrArg charsOf
      (List.takeWhile_append_dropWhile (p := fun piece : Piece => !piece.isSolid) (l := first :: rest))
    rw [charsOf_append] at parts
    rw [run, charsOf_append, ← parts] at whole
    have inside := runFrom_prefix [] ((first :: rest).takeWhile fun piece => !piece.isSolid)
    rw [runFrom_flat, List.nil_append] at inside
    rw [charsOf_append, charsOf_append, charsOf_stretch, ← whole, List.length_append, ← List.drop_drop,
      List.drop_left, List.drop_append_of_le_length inside.length_le]
    simp

end Retouch.Markup
