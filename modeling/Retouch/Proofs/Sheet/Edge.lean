import Retouch.Proofs.Sheet.Taken

/-!
# The seam behind a value

What can stand behind a value begins with what no value goes on with: blanks at most, and a semicolon, a closing brace
or the mark of importance. Of two such texts, the readers of names, numbers and words see no difference. Gaps and
strings may differ by comments: one that is left open could be closed behind the seam.

## Main statements

* `dropAtom_seam`: numbers, names and words end at the seam.
* `dropGap_seam`: a gap ends in front of the seam, or goes on to what ends a value.
* `dropString_seam`: a string that is closed in front of the seam is closed there whatever stands behind.
-/
namespace Retouch.Sheet

/-! ### Behind a value -/

/-- The characters that end a value: those that end a declaration, and the first one of the mark of importance. -/
def isEnd (c : Char) : Bool := c = ';' || c = '}' || c = '!'

/-- Blanks and marks that no name, number, word or unit goes on with: what such a text can begin with, and what else
can stand behind a value in parentheses or brackets. -/
def quietChars : List Char := [9, 10, 11, 12, 13, 32].map Char.ofNat ++ [';', '}', '!', ')', ',', ']']

/-- A text that begins with no character of a name, a number, a word or a unit. -/
def Quiet (s : List Char) : Prop := ∀ c ∈ s.head?, c ∈ quietChars

theorem plainBlank_mem {c : Char} (blank : Text.isPlainBlank c = true) : c ∈ quietChars := by
  refine List.mem_append_left _ (List.mem_map.mpr ⟨c.toNat, ?_, by simp⟩)
  simp only [Text.isPlainBlank, Bool.or_eq_true, Bool.and_eq_true, decide_eq_true_eq, beq_iff_eq] at blank
  simp only [List.mem_cons, List.not_mem_nil, or_false]
  omega

theorem isEnd_mem {c : Char} (ends : isEnd c = true) : c ∈ quietChars := by
  simp only [isEnd, Bool.or_eq_true, decide_eq_true_eq, or_assoc] at ends
  rcases ends with rfl | rfl | rfl <;> decide

/-- A text that can stand behind a value: a gap that no value goes on with, and `core` with what ends it. -/
structure Edge (s core : List Char) : Prop where
  quiet : Quiet s
  gap : dropGap .single s = core
  ends : ∃ c rest, core = c :: rest ∧ isEnd c = true

/-- What a gap, or what stands behind a joint at the seam, can begin with: a slash, or what ends a value. -/
def jointChars : List Char := '/' :: quietChars

theorem beginsGap_mem {c : Char} (begins : beginsGap c = true) : c ∈ jointChars := by
  simp only [beginsGap, Bool.or_eq_true, decide_eq_true_eq] at begins
  rcases begins with blank | rfl
  · exact List.mem_cons_of_mem _ (plainBlank_mem blank)
  · exact List.mem_cons_self

/-- What holds of none of these characters holds of nothing that a gap begins with. -/
theorem solid_of {holds : Char → Bool} (clear : jointChars.all (fun c => !holds c) = true) {c : Char}
    (held : holds c = true) : beginsGap c = false := by
  by_contra begins
  have none := List.all_eq_true.mp clear c (beginsGap_mem (by simpa using begins))
  rw [held] at none
  cases none

variable {s core s' core' z : List Char}

theorem Edge.core_quiet (edge : Edge s core) : Quiet core := by
  obtain ⟨-, -, c, rest, rfl, ends⟩ := edge
  intro d first
  cases first
  exact isEnd_mem ends

/-- A class of characters that a quiet text does not begin with. -/
theorem Quiet.none (quiet : Quiet s) {holds : Char → Bool} (clear : quietChars.all (fun c => !holds c) = true) :
    ∀ c ∈ s.head?, holds c = false := by
  intro c first
  simpa using List.all_eq_true.mp clear c (quiet c first)

/-! ### Characters -/

/-- A run of characters ends at the seam at last. -/
theorem dropWhile_seam {holds : Char → Bool} (none : ∀ c ∈ s.head?, holds c = false) (z : List Char) :
    (z ++ s).dropWhile holds = z.dropWhile holds ++ s := by
  induction z with
  | nil =>
    cases s with
    | nil => rfl
    | cons c s => exact List.dropWhile_cons_of_neg (by simp [none c rfl])
  | cons c z ih =>
    rw [List.cons_append, List.dropWhile_cons, List.dropWhile_cons, ih]
    split <;> rfl

theorem takeWhile_seam {holds : Char → Bool} (none : ∀ c ∈ s.head?, holds c = false) (z : List Char) :
    (z ++ s).takeWhile holds = z.takeWhile holds := by
  induction z with
  | nil =>
    cases s with
    | nil => rfl
    | cons c s => exact List.takeWhile_cons_of_neg (by simp [none c rfl])
  | cons c z ih =>
    rw [List.cons_append, List.takeWhile_cons, List.takeWhile_cons, ih]

/-- The rest behind a point with digits. -/
def fraction : List Char → Option (List Char)
  | '.' :: d :: rest => if d.isDigit then some (rest.dropWhile Char.isDigit) else none
  | _ => none

/-- The rest behind an exponent. -/
def exponent : List Char → Option (List Char)
  | e :: '-' :: d :: rest =>
    if (e = 'e' || e = 'E') && d.isDigit then some (rest.dropWhile Char.isDigit) else none
  | e :: d :: rest => if (e = 'e' || e = 'E') && d.isDigit then some (rest.dropWhile Char.isDigit) else none
  | _ => none

theorem dropDigits_eq (cs : List Char) : dropDigits cs =
    let whole := cs.dropWhile Char.isDigit
    let rest := (fraction whole).getD whole
    if cs.head?.any Char.isDigit || (fraction whole).isSome || (exponent rest).isSome then
      some ((exponent rest).getD rest)
    else none := rfl

/-- The longer one of two atoms. -/
def longer (best : Option (Atom × List Char)) (kind : Atom) (rest : Option (List Char)) : Option (Atom × List Char) :=
  match best, rest with
  | some (_, held), some rest => if rest.length < held.length then some (kind, rest) else best
  | none, some rest => some (kind, rest)
  | _, none => best

theorem dropAtom_eq (cs : List Char) : dropAtom cs =
    longer (longer (longer none .number (dropNumber cs)) .name (dropName cs)) .word (dropWord cs) := rfl

/-- A reader takes the same of a text in whatever context. -/
def Local (s : List Char) (read : List Char → Option (List Char)) : Prop :=
  ∀ z, read (z ++ s) = (read z).map (· ++ s)

/-- Behind a dash a name has another one or a character that it can begin with. -/
theorem dropName_dash (c : Char) (rest : List Char) : dropName ('-' :: c :: rest) =
    if c = '-' || isNameStart c then some (rest.dropWhile isNameChar) else none := by
  by_cases dash : c = '-'
  · subst dash
    rfl
  · have other : dropName ('-' :: c :: rest) =
        if isNameStart c then some (rest.dropWhile isNameChar) else none := by
      unfold dropName
      split
      · rename_i same
        exact absurd (List.cons.inj (List.cons.inj same).2).1 dash
      · rename_i same
        cases same
        rfl
      · rename_i same
        cases same
        rename_i _ second
        exact absurd rfl (second _ _ rfl)
      · rename_i same
        cases same
    rw [other]
    simp [dash]

theorem dropName_start {c : Char} (other : c ≠ '-') (rest : List Char) :
    dropName (c :: rest) = if isNameStart c then some (rest.dropWhile isNameChar) else none := by
  unfold dropName
  split
  · rename_i same
    exact absurd (List.cons.inj same).1 other
  · rename_i same
    exact absurd (List.cons.inj same).1 other
  · rename_i same
    cases same
    rfl
  · rename_i same
    cases same

theorem dropWordLead_other {c : Char} (other : c ≠ '/') (rest : List Char) :
    dropWordLead (c :: rest) = if c = '-' || c = '_' then dropWordLead rest else c :: rest := by
  conv => lhs; unfold dropWordLead
  split
  · rename_i same
    exact absurd (List.cons.inj same).1 other
  · rename_i same
    cases same
    rfl
  · rename_i same
    cases same

theorem dropWordBody_other {c : Char} (other : c ≠ '/') (rest : List Char) :
    dropWordBody (c :: rest) = if isBorder c then c :: rest else dropWordBody rest := by
  conv => lhs; unfold dropWordBody
  split
  · rename_i same
    exact absurd (List.cons.inj same).1 other
  · rename_i same
    exact absurd (List.cons.inj same).1 other
  · rename_i same
    cases same
    rfl
  · rename_i same
    cases same

theorem head_seam {holds : Char → Bool} (none : ∀ c ∈ s.head?, holds c = false) (z : List Char) :
    (z ++ s).head?.any holds = z.head?.any holds := by
  cases z with
  | nil =>
    cases s with
    | nil => rfl
    | cons c s => simp [none c rfl]
  | cons c z => rfl

theorem fraction_cons (a d : Char) (rest : List Char) : fraction (a :: d :: rest) =
    if a = '.' && d.isDigit then some (rest.dropWhile Char.isDigit) else none := by
  by_cases point : a = '.'
  · subst point
    simp [fraction]
  · simp [fraction, point]

theorem exponent_none {e : Char} (other : (e = 'e' || e = 'E') = false) (rest : List Char) :
    exponent (e :: rest) = none := by
  unfold exponent
  split
  · rename_i same
    cases same
    simp [other]
  · rename_i same
    cases same
    simp [other]
  · rfl

theorem exponent_cons (e : Char) {d : Char} (other : d ≠ '-') (rest : List Char) : exponent (e :: d :: rest) =
    if (e = 'e' || e = 'E') && d.isDigit then some (rest.dropWhile Char.isDigit) else none := by
  unfold exponent
  split
  · rename_i same
    exact absurd (List.cons.inj (List.cons.inj same).2).1 other
  · rename_i same
    cases same
    rfl
  · rename_i none
    exact (none _ _ _ rfl).elim

theorem dropNumber_unsigned {c : Char} (plus : c ≠ '+') (minus : c ≠ '-') (rest : List Char) :
    dropNumber (c :: rest) = dropDigits (c :: rest) := by
  unfold dropNumber
  split
  · rename_i same
    exact absurd (List.cons.inj same).1 plus
  · rename_i same
    exact absurd (List.cons.inj same).1 minus
  · rfl

/-- A name ends in front of what does not belong to it. -/
theorem dropName_local (bare : ∀ c ∈ s.head?, isNameChar c = false) : Local s dropName := by
  have tail (z : List Char) : (z ++ s).dropWhile isNameChar = z.dropWhile isNameChar ++ s :=
    dropWhile_seam bare z
  have start : ∀ c ∈ s.head?, (c = '-' || isNameStart c) = false := by
    intro c first
    have none := bare c first
    simp only [isNameChar, Bool.or_eq_false_iff] at none
    rw [none.1.1, none.2]
    rfl
  rintro (_ | ⟨a, z⟩)
  · rcases s with _ | ⟨c, s⟩
    · rfl
    · have none := start c rfl
      simp only [Bool.or_eq_false_iff, decide_eq_false_iff_not] at none
      rw [List.nil_append, dropName_start none.1, none.2]
      rfl
  · by_cases dash : a = '-'
    · subst dash
      rcases z with _ | ⟨b, z⟩
      · rcases s with _ | ⟨c, s⟩
        · rfl
        · rw [List.cons_append, List.nil_append, dropName_dash, start c rfl]
          rfl
      · rw [List.cons_append, List.cons_append, dropName_dash, dropName_dash, tail]
        split <;> rfl
    · rw [List.cons_append, dropName_start dash, dropName_start dash, tail]
      split <;> rfl

section Quiet

variable (quiet : Quiet s)

include quiet

theorem digits_seam (z : List Char) : (z ++ s).dropWhile Char.isDigit = z.dropWhile Char.isDigit ++ s :=
  dropWhile_seam (quiet.none (by decide)) z

theorem dropName_seam : Local s dropName := dropName_local (quiet.none (by decide))

/-- A slash at the end takes nothing along. -/
theorem slash_seam : dropWordLead ('/' :: s) = '/' :: s ∧ dropWordBody ('/' :: s) = '/' :: s := by
  rcases s with _ | ⟨c, s⟩
  · exact ⟨rfl, rfl⟩
  · have border := @Quiet.none _ quiet (fun c => !isBorder c) (by decide) c rfl
    have held : (c = '*' || isBorder c) = true := by
      simp only [Bool.not_eq_false'] at border
      simp [border]
    exact ⟨by rw [dropWordLead, if_pos held], by rw [dropWordBody, if_pos held]⟩

theorem dropWordLead_seam (z : List Char) : dropWordLead (z ++ s) = dropWordLead z ++ s := by
  induction z using dropWordLead.induct with
  | case1 c rest held =>
    rw [List.cons_append, List.cons_append, dropWordLead, dropWordLead, if_pos held, if_pos held]
    rfl
  | case2 c rest held ih =>
    rw [List.cons_append, List.cons_append, dropWordLead, dropWordLead, if_neg held, if_neg held, ih]
  | case3 c rest slash held ih =>
    have other : c ≠ '/' := by
      rintro rfl
      revert held
      decide
    rw [List.cons_append, dropWordLead_other other, dropWordLead_other other, if_pos held, if_pos held, ih]
  | case4 c rest slash held =>
    by_cases other : c = '/'
    · subst other
      obtain rfl : rest = [] := by
        cases rest with
        | nil => rfl
        | cons d rest => exact (slash d rest rfl rfl).elim
      exact (slash_seam quiet).1
    · rw [List.cons_append, dropWordLead_other other, dropWordLead_other other, if_neg held, if_neg held]
      rfl
  | case5 =>
    rcases s with _ | ⟨c, s⟩
    · rfl
    · have none := @Quiet.none _ quiet (fun c => c = '/' || (c = '-' || c = '_')) (by decide) c rfl
      simp only [Bool.or_eq_false_iff (x := decide (c = '/'))] at none
      rw [List.nil_append, dropWordLead_other (by simpa using none.1), none.2]
      rfl

theorem dropWordBody_seam (z : List Char) : dropWordBody (z ++ s) = dropWordBody z ++ s := by
  induction z using dropWordBody.induct with
  | case1 c rest held =>
    rw [List.cons_append, List.cons_append, dropWordBody, dropWordBody, if_pos held, if_pos held]
    rfl
  | case2 c rest held ih =>
    rw [List.cons_append, List.cons_append, dropWordBody, dropWordBody, if_neg held, if_neg held, ih]
  | case3 => exact (slash_seam quiet).2
  | case4 c rest slash last border =>
    have other : c ≠ '/' := by
      rintro rfl
      cases rest with
      | nil => exact last rfl rfl
      | cons d rest => exact slash d rest rfl rfl
    rw [List.cons_append, dropWordBody_other other, dropWordBody_other other, if_pos border, if_pos border]
    rfl
  | case5 c rest slash last border ih =>
    have other : c ≠ '/' := by
      rintro rfl
      cases rest with
      | nil => exact last rfl rfl
      | cons d rest => exact slash d rest rfl rfl
    rw [List.cons_append, dropWordBody_other other, dropWordBody_other other, if_neg border, if_neg border, ih]
  | case6 =>
    rcases s with _ | ⟨c, s⟩
    · rfl
    · have none := @Quiet.none _ quiet (fun c => c = '/' || !isBorder c) (by decide) c rfl
      simp only [Bool.or_eq_false_iff (x := decide (c = '/')), Bool.not_eq_false'] at none
      rw [List.nil_append, dropWordBody_other (by simpa using none.1), none.2]
      rfl

theorem dropWord_seam : Local s dropWord := by
  intro z
  unfold dropWord
  rw [dropWordLead_seam quiet]
  cases dropWordLead z with
  | nil =>
    rcases s with _ | ⟨c, s⟩
    · rfl
    · have none := @Quiet.none _ quiet isLetter (by decide) c rfl
      simp [none]
  | cons c rest =>
    dsimp only [List.cons_append]
    rw [dropWordBody_seam quiet]
    split <;> rfl

theorem fraction_seam : Local s fraction := by
  have none : ∀ c ∈ s.head?, (c = '.' || c.isDigit) = false :=
    @Quiet.none _ quiet (fun c => c = '.' || c.isDigit) (by decide)
  rintro (_ | ⟨a, _ | ⟨d, z⟩⟩)
  · rcases s with _ | ⟨c, _ | ⟨d, s⟩⟩
    · rfl
    · simp [fraction]
    · have other := none c rfl
      simp only [Bool.or_eq_false_iff, decide_eq_false_iff_not] at other
      simp [other, fraction]
  · have last : fraction [a] = Option.none := by simp [fraction]
    rcases s with _ | ⟨c, s⟩
    · rw [List.append_nil, last]
      rfl
    · have other := none c rfl
      simp only [Bool.or_eq_false_iff] at other
      rw [List.cons_append, List.nil_append, fraction_cons, other.2, Bool.and_false, last]
      rfl
  · rw [List.cons_append, List.cons_append, fraction_cons, fraction_cons, digits_seam quiet]
    split <;> rfl

theorem exponent_seam : Local s exponent := by
  have none : ∀ c ∈ s.head?, (c = '-' || c.isDigit) = false :=
    @Quiet.none _ quiet (fun c => c = '-' || c.isDigit) (by decide)
  rintro (_ | ⟨e, _ | ⟨a, z⟩⟩)
  · rcases s with _ | ⟨c, s⟩
    · rfl
    · exact exponent_none (@Quiet.none _ quiet (fun e => e = 'e' || e = 'E') (by decide) c rfl) s
  · rcases s with _ | ⟨c, s⟩
    · rfl
    · have other := none c rfl
      simp only [Bool.or_eq_false_iff, decide_eq_false_iff_not] at other
      rw [List.cons_append, List.nil_append, exponent_cons e other.1, other.2, Bool.and_false]
      rfl
  · by_cases dash : a = '-'
    · subst dash
      rcases z with _ | ⟨d, z⟩
      · have last : exponent [e, '-'] = Option.none := by simp [exponent]
        rcases s with _ | ⟨c, s⟩
        · rw [List.append_nil, last]
          rfl
        · have other := none c rfl
          simp only [Bool.or_eq_false_iff] at other
          simp [exponent, other]
      · simp only [List.cons_append, exponent, digits_seam quiet]
        split <;> rfl
    · rw [List.cons_append, List.cons_append, exponent_cons e dash, exponent_cons e dash, digits_seam quiet]
      split <;> rfl

theorem dropDigits_seam : Local s dropDigits := by
  intro z
  have digit : quietChars.all (fun c => !c.isDigit) = true := by decide
  rw [dropDigits_eq, dropDigits_eq, digits_seam quiet, head_seam (quiet.none digit)]
  dsimp only
  rw [fraction_seam quiet]
  have getD (found : Option (List Char)) (rest : List Char) :
      (found.map (· ++ s)).getD (rest ++ s) = found.getD rest ++ s := by
    cases found <;> rfl
  rw [getD, exponent_seam quiet, getD]
  simp only [Option.isSome_map]
  split <;> rfl

theorem dropNumber_seam : Local s dropNumber := by
  have digits := dropDigits_seam quiet
  rintro (_ | ⟨a, z⟩)
  · rcases s with _ | ⟨c, s⟩
    · rfl
    · have other := @Quiet.none _ quiet (fun c => c = '+' || c = '-') (by decide) c rfl
      simp only [Bool.or_eq_false_iff, decide_eq_false_iff_not] at other
      rw [List.nil_append, dropNumber_unsigned other.1 other.2]
      exact digits []
  · by_cases plus : a = '+'
    · subst plus
      exact digits z
    · by_cases minus : a = '-'
      · subst minus
        exact digits z
      · rw [List.cons_append, dropNumber_unsigned plus minus, dropNumber_unsigned plus minus]
        exact digits (a :: z)

/-- An atom and the rest behind it, in front of a text. -/
def inFront (s : List Char) (atom : Atom × List Char) : Atom × List Char := (atom.1, atom.2 ++ s)

omit quiet in
theorem longer_seam (best : Option (Atom × List Char)) (kind : Atom) (rest : Option (List Char)) :
    longer (best.map (inFront s)) kind (rest.map (· ++ s)) = (longer best kind rest).map (inFront s) := by
  rcases best with _ | ⟨held, behind⟩
  · cases rest <;> rfl
  · rcases rest with _ | rest
    · rfl
    · simp only [longer, Option.map_some, inFront, List.length_append, Nat.add_lt_add_iff_right]
      split <;> rfl

theorem dropAtom_seam (z : List Char) : dropAtom (z ++ s) = (dropAtom z).map (inFront s) := by
  rw [dropAtom_eq, dropAtom_eq, dropNumber_seam quiet, dropName_seam quiet, dropWord_seam quiet]
  have none : (none : Option (Atom × List Char)) = none.map (inFront s) := rfl
  conv => lhs; rw [none]
  rw [longer_seam, longer_seam, longer_seam]

theorem dropNext_seam (behind : Spot) (z : List Char) :
    dropNext behind (z ++ s) = (dropNext behind z).map (inFront s) := by
  unfold dropNext
  split
  · exact dropAtom_seam quiet z
  · rw [dropName_seam quiet, Option.map_map, Option.map_map]
    rfl
  · rfl

theorem dropColorCode_seam : Local s dropColorCode := by
  intro z
  have digits : (z ++ s).takeWhile isHexDigit = z.takeWhile isHexDigit := takeWhile_seam (quiet.none (by decide)) z
  unfold dropColorCode
  rw [digits]
  dsimp only
  split
  · rfl
  · have within : min (z.takeWhile isHexDigit).length 8 ≤ z.length :=
      Nat.le_trans (Nat.min_le_left ..) (List.takeWhile_prefix isHexDigit).length_le
    rw [List.drop_append_of_le_length within]
    rfl

end Quiet

/-! ### Gaps -/

/-- A comment takes two characters at least. -/
theorem dropComment_shorter {spot : Spot} {cs rest : List Char} (found : dropComment spot cs = some rest) :
    rest.length + 2 ≤ cs.length := by
  unfold dropComment at found
  split at found
  · exact Nat.succ_le_succ (Nat.succ_le_succ (takes_afterComment found).length_le)
  · split at found
    · rename_i line _
      cases found
      exact Nat.succ_le_succ (Nat.succ_le_succ (takes_dropWhile (· != '\n') line).length_le)
    · cases found
  · cases found

theorem dropComment_lt {spot : Spot} {cs rest : List Char} (found : dropComment spot cs = some rest) :
    rest.length < cs.length := Nat.lt_of_succ_lt (dropComment_shorter found)

/-- Where no gap begins there is none. -/
theorem dropComment_of_solid {spot : Spot} {cs : List Char} (solid : cs.head?.any beginsGap = false) :
    cs.dropWhile Text.isPlainBlank = cs ∧ dropComment spot cs = none := by
  rcases cs with _ | ⟨c, rest⟩
  · exact ⟨rfl, rfl⟩
  · simp only [List.head?_cons, Option.any_some, beginsGap, Bool.or_eq_false_iff, decide_eq_false_iff_not] at solid
    refine ⟨List.dropWhile_cons_of_neg (by simp [solid.1]), ?_⟩
    unfold dropComment
    split
    · rename_i same
      exact absurd (List.cons.inj same).1 solid.2
    · rename_i same
      exact absurd (List.cons.inj same).1 solid.2
    · rfl

/-- The bound on the number of comments is never reached. -/
theorem dropGapWithin_eq (spot : Spot) {fuel : Nat} {cs : List Char} (enough : cs.length < fuel) :
    dropGapWithin spot fuel cs = dropGap spot cs := by
  have same {fuel fuel' : Nat} {cs : List Char} (enough : cs.length < fuel) (enough' : cs.length < fuel') :
      dropGapWithin spot fuel cs = dropGapWithin spot fuel' cs := by
    induction fuel generalizing fuel' cs with
    | zero => omega
    | succ fuel ih =>
      obtain ⟨fuel', rfl⟩ : ∃ n, fuel' = n + 1 := ⟨fuel' - 1, by omega⟩
      unfold dropGapWithin
      dsimp only
      split
      · rename_i rest found
        have shorter := dropComment_lt found
        have blanks := (takes_dropWhile Text.isPlainBlank cs).length_le
        exact ih (by omega) (by omega)
      · rfl
  unfold dropGap
  split
  · exact same enough (Nat.lt_succ_self _)
  · rename_i solid
    obtain ⟨blanks, none⟩ := @dropComment_of_solid spot cs (by simpa using solid)
    obtain ⟨fuel, rfl⟩ : ∃ n, fuel = n + 1 := ⟨fuel - 1, by omega⟩
    unfold dropGapWithin
    rw [blanks]
    dsimp only
    rw [none]

/-- A gap is blanks, and a gap again behind a comment. -/
theorem dropGap_step (spot : Spot) (cs : List Char) : dropGap spot cs =
    match dropComment spot (cs.dropWhile Text.isPlainBlank) with
    | some rest => dropGap spot rest
    | none => cs.dropWhile Text.isPlainBlank := by
  rw [← dropGapWithin_eq spot (Nat.lt_succ_self _)]
  unfold dropGapWithin
  cases found : dropComment spot (cs.dropWhile Text.isPlainBlank) with
  | none => simp only [found]
  | some rest =>
    have shorter := dropComment_lt found
    have blanks := (takes_dropWhile Text.isPlainBlank cs).length_le
    simp only [found]
    exact dropGapWithin_eq spot (by omega)

theorem dropGap_solid {spot : Spot} {cs : List Char} (solid : cs.head?.any beginsGap = false) :
    dropGap spot cs = cs := by
  rw [dropGap, if_neg (by simp [solid])]

/-! ### Comments that are closed -/

/-- The comments that a text opens are closed in it, or not at all in front of `s`. -/
def Shut (s x : List Char) : Prop := ∀ t, '/' :: '*' :: t <:+ x → (afterComment t).isSome ∨ afterComment (t ++ s) = none

theorem Shut.suffix {x y : List Char} (shut : Shut s x) (suffix : y <:+ x) : Shut s y :=
  fun t behind => shut t (behind.trans suffix)

/-- Behind a character that does not begin the closing mark. -/
theorem afterComment_cons {c : Char} {t : List Char} (open_ : ∀ rest, c = '*' → t = '/' :: rest → False) :
    afterComment (c :: t) = afterComment t := by
  conv => lhs; unfold afterComment
  split
  · rename_i same
    obtain ⟨star, slash⟩ := List.cons.inj same
    exact (open_ _ star slash).elim
  · rename_i same
    cases same
    rfl
  · rename_i same
    cases same

theorem afterComment_mark {t rest : List Char} (found : afterComment t = some rest) :
    ∃ part, t = part ++ '/' :: rest := by
  fun_induction afterComment t with
  | case1 rest' =>
    cases found
    exact ⟨['*'], rfl⟩
  | case2 c t other ih =>
    obtain ⟨part, rfl⟩ := ih found
    exact ⟨c :: part, rfl⟩
  | case3 => cases found

theorem afterComment_lt {t rest : List Char} (found : afterComment t = some rest) : rest.length < t.length := by
  obtain ⟨part, rfl⟩ := afterComment_mark found
  simp only [List.length_append, List.length_cons]
  omega

theorem afterComment_append {t rest : List Char} (closed : afterComment t = some rest) (s : List Char) :
    afterComment (t ++ s) = some (rest ++ s) := by
  fun_induction afterComment t with
  | case1 rest' =>
    cases closed
    rfl
  | case2 c t other ih =>
    rw [List.cons_append, afterComment_cons, ih closed]
    intro rest' star slash
    cases t with
    | nil => cases closed
    | cons d t => exact other t star (congrArg (· :: t) (List.cons.inj slash).1)
  | case3 => cases closed

/-- A comment that is left open ends behind the seam, if it ends. -/
theorem afterComment_open {t rest : List Char} (left : afterComment t = none)
    (found : afterComment (t ++ s) = some rest) : rest.length < s.length := by
  induction t with
  | nil => exact afterComment_lt found
  | cons c t ih =>
    by_cases closing : c = '*' ∧ (t ++ s).head? = some '/'
    · obtain ⟨rfl, slash⟩ := closing
      cases t with
      | nil =>
        obtain ⟨more, rfl⟩ := List.head?_eq_some_iff.mp slash
        cases found
        exact Nat.lt_succ_self _
      | cons d t =>
        obtain rfl : d = '/' := Option.some.inj slash
        cases left
    · have skip {t : List Char} (other : c = '*' → t.head? ≠ some '/') : afterComment (c :: t) = afterComment t :=
        afterComment_cons fun rest star same => other star (by rw [same]; rfl)
      have here : c = '*' → (t ++ s).head? ≠ some '/' := fun star slash => closing ⟨star, slash⟩
      have here' : c = '*' → t.head? ≠ some '/' := fun star slash => here star (by
        obtain ⟨more, rfl⟩ := List.head?_eq_some_iff.mp slash
        rfl)
      rw [List.cons_append, skip here] at found
      exact ih (by rwa [skip here'] at left) found

/-- A text without slashes closes no comment. -/
theorem afterComment_bare {t v : List Char} (left : afterComment t = none) (bare : ∀ b ∈ v, b ≠ '/') :
    afterComment (t ++ v) = none := by
  refine Option.eq_none_iff_forall_ne_some.mpr fun rest found => ?_
  have shorter := afterComment_open left found
  obtain ⟨part, whole⟩ := afterComment_mark found
  -- The mark would stand behind the text.
  have slash : v = (part.drop t.length) ++ '/' :: rest := by
    have size := congrArg List.length whole
    simp only [List.length_append, List.length_cons] at size
    have behind := congrArg (List.drop t.length) whole
    rwa [List.drop_left, List.drop_append_of_le_length (by omega)] at behind
  exact bare '/' (by rw [slash]; simp) rfl

/-- What stands behind a comment that is closed in a text. -/
theorem dropComment_block {spot : Spot} (t : List Char) : dropComment spot ('/' :: '*' :: t) = afterComment t := rfl

theorem dropComment_line {spot : Spot} (t : List Char) : dropComment spot ('/' :: '/' :: t) =
    if slashesComment spot ('/' :: '/' :: t) then some (t.dropWhile (· != '\n')) else none := rfl

theorem dropComment_other {spot : Spot} {c d : Char} (block : d ≠ '*') (line : d ≠ '/') (t : List Char) :
    dropComment spot (c :: d :: t) = none := by
  unfold dropComment
  split
  · rename_i same
    exact absurd (List.cons.inj (List.cons.inj same).2).1 block
  · rename_i same
    exact absurd (List.cons.inj (List.cons.inj same).2).1 line
  · rfl

theorem dropComment_solid {spot : Spot} {c : Char} (solid : c ≠ '/') (t : List Char) :
    dropComment spot (c :: t) = none := by
  unfold dropComment
  split
  · rename_i same
    exact absurd (List.cons.inj same).1 solid
  · rename_i same
    exact absurd (List.cons.inj same).1 solid
  · rfl

/-- A comment that ends in front of a text is closed there whatever stands behind, if both texts agree about what ends
a line. Blanks in front of the text close nothing. -/
theorem dropComment_seam {spot : Spot} {v r : List Char} {c : Char} (same : ∀ z, slashesComment spot (z ++ (v ++ s)) =
      slashesComment spot (z ++ s')) (blank : ∀ b ∈ v, Text.isPlainBlank b = true) (lead : v = [] ∨ v.head? = some '\n')
    (found : dropComment spot (c :: z ++ (v ++ s)) = some r) (long : s.length ≤ r.length)
    (feed : r = v ++ s → v ++ s ≠ [] ∧ ((v ++ s).head? = some '\n' → s'.head? = some '\n')) :
    ∃ y, y <:+ z ∧ r = y ++ (v ++ s) ∧ dropComment spot (c :: z ++ s') = some (y ++ s') := by
  by_cases slash : c = '/'
  · subst slash
    have bare : ∀ b ∈ v, b ≠ '/' := by
      rintro _ member rfl
      exact absurd (blank _ member) (by decide)
    rcases z with _ | ⟨d, t⟩
    · -- The slash at the end and the first character behind it are no comment, or take some of the text.
      rcases lead with rfl | first
      · have shorter := dropComment_shorter found
        simp only [List.cons_append, List.nil_append, List.length_cons] at shorter
        omega
      · obtain ⟨rest, rfl⟩ := List.head?_eq_some_iff.mp first
        rw [List.cons_append, List.nil_append, List.cons_append, dropComment_other (by decide) (by decide)] at found
        cases found
    · by_cases block : d = '*'
      · subst block
        rw [List.cons_append, List.cons_append, dropComment_block] at found
        cases closed : afterComment t with
        | some rest =>
          obtain ⟨part, whole, -⟩ := takes_afterComment closed
          rw [afterComment_append closed] at found
          obtain rfl := Option.some.inj found
          exact ⟨rest, ⟨'*' :: part, by simp [whole]⟩, rfl, afterComment_append closed s'⟩
        | none =>
          rw [← List.append_assoc] at found
          have := afterComment_open (afterComment_bare closed bare) found
          omega
      · by_cases line : d = '/'
        · subst line
          have slashes := same ('/' :: '/' :: t)
          simp only [List.cons_append] at slashes
          simp only [List.cons_append, dropComment_line, slashes] at found ⊢
          split at found
          · rename_i comment
            rw [if_pos comment]
            by_cases ended : '\n' ∈ t
            · have stops (s : List Char) : (t ++ s).dropWhile (· != '\n') = t.dropWhile (· != '\n') ++ s := by
                rw [List.dropWhile_append, if_neg]
                simpa using ended
              obtain ⟨part, whole, -⟩ := takes_dropWhile (· != '\n') t
              rw [stops] at found
              obtain rfl := Option.some.inj found
              exact ⟨_, ⟨'/' :: part, by rw [List.cons_append, ← whole]⟩, rfl, congrArg some (stops s')⟩
            · -- The line goes on behind the seam, so it ends in front of the first character there.
              have goes (s : List Char) : (t ++ s).dropWhile (· != '\n') = s.dropWhile (· != '\n') := by
                have others : ∀ c ∈ t, ¬c = '\n' := by
                  rintro c member rfl
                  exact ended member
                rw [List.dropWhile_append, if_pos]
                simpa using others
              rw [goes] at found
              obtain rfl := Option.some.inj found
              have whole : (v ++ s).dropWhile (· != '\n') = v ++ s := by
                rcases lead with rfl | first
                · exact (List.dropWhile_suffix _).eq_of_length_le long
                · obtain ⟨rest, rfl⟩ := List.head?_eq_some_iff.mp first
                  rfl
              obtain ⟨filled, first⟩ := feed whole
              have stop := List.head?_dropWhile_not (· != '\n') (v ++ s)
              rw [whole] at stop ⊢
              cases split : v ++ s with
              | nil => exact absurd split filled
              | cons b rest =>
                rw [split] at stop first
                obtain ⟨rest', rfl⟩ := List.head?_eq_some_iff.mp (first (congrArg some (by simpa using stop)))
                exact ⟨[], List.nil_suffix, rfl, congrArg some (goes _)⟩
          · cases found
        · rw [List.cons_append, List.cons_append, dropComment_other block line] at found
          cases found
  · rw [List.cons_append, dropComment_solid slash] at found
    cases found

section Quiet

variable (quiet : Quiet s)

include quiet

/-- Whether slashes begin a comment is seen in the text itself. -/
theorem slashesComment_seam (spot : Spot) (z : List Char) : slashesComment spot (z ++ s) = slashesComment spot z := by
  have word : (dropWord (z ++ s)).all (fun rest => rest.head? = some '/') =
      (dropWord z).all fun rest => rest.head? = some '/' := by
    rw [dropWord_seam quiet]
    cases dropWord z with
    | none => rfl
    | some rest =>
      rcases rest with _ | ⟨c, rest⟩
      · rcases s with _ | ⟨c, s⟩
        · rfl
        · have other := @Quiet.none _ quiet (fun c => c = '/') (by decide) c rfl
          simpa using other
      · rfl
  unfold slashesComment
  split <;> first | rfl | exact word

/-- A slash at the end begins no comment. -/
theorem dropComment_last {spot : Spot} : dropComment spot ('/' :: s) = none := by
  rcases s with _ | ⟨d, s⟩
  · rfl
  · have other := @Quiet.none _ quiet (fun d => d = '*' || d = '/') (by decide) d rfl
    simp only [Bool.or_eq_false_iff, decide_eq_false_iff_not] at other
    exact dropComment_other other.1 other.2 s

/-- Where no comment begins in front of one text, none begins in front of the other. -/
theorem dropComment_seam_none {s' : List Char} (quiet' : Quiet s') {spot : Spot} {c : Char} {z : List Char}
    (shut : Shut s' (c :: z)) (none : dropComment spot (c :: z ++ s) = none) :
    dropComment spot (c :: z ++ s') = .none := by
  by_cases slash : c = '/'
  · subst slash
    rcases z with _ | ⟨d, t⟩
    · exact dropComment_last quiet'
    · by_cases block : d = '*'
      · subst block
        rw [List.cons_append, List.cons_append, dropComment_block] at none ⊢
        refine (shut t (List.suffix_refl _)).resolve_left fun closed => ?_
        obtain ⟨rest, closed⟩ := Option.isSome_iff_exists.mp closed
        rw [afterComment_append closed] at none
        cases none
      · by_cases line : d = '/'
        · subst line
          have slashes {s : List Char} (quiet : Quiet s) :
              slashesComment spot ('/' :: '/' :: (t ++ s)) = slashesComment spot ('/' :: '/' :: t) :=
            slashesComment_seam quiet spot ('/' :: '/' :: t)
          simp only [List.cons_append, dropComment_line, slashes quiet, slashes quiet'] at none ⊢
          split at none
          · cases none
          · rw [if_neg ‹_›]
        · exact dropComment_other block line _
  · exact dropComment_solid slash _

end Quiet

/-! ### Gaps in front of the seam -/

section Edges

variable (edge : Edge s core) (edge' : Edge s' core')

/-- The gap behind a text does not go past what stands at the seam, or there is nothing in front of it. -/
def Within (s : List Char) (spot : Spot) (y : List Char) : Prop := y = [] ∨ s.length ≤ (dropGap spot (y ++ s)).length

theorem Edge.filled (edge : Edge s core) : s ≠ [] := by
  rintro rfl
  obtain ⟨-, gap, c, rest, rfl, -⟩ := edge
  cases gap

theorem Edge.length_le (edge : Edge s core) : core.length ≤ s.length := by
  rw [← edge.gap]
  exact (takes_dropGap taking_all .single s).length_le

theorem Edge.length_lt (edge : Edge s core) (feed : s.head? = some '\n') : core.length < s.length := by
  obtain ⟨rest, rfl⟩ := List.head?_eq_some_iff.mp feed
  have step : dropGap .single ('\n' :: rest) = dropGap .single rest := by
    rw [dropGap_step, List.dropWhile_cons_of_pos (by decide), ← dropGap_step]
  rw [← edge.gap, step]
  exact Nat.lt_succ_of_le (takes_dropGap taking_all .single rest).length_le

/-- A gap without line comments is the same at every spot. -/
theorem dropGap_of_single {c : Char} {rest : List Char} (solid : c ≠ '/') (gap : dropGap .single s = c :: rest)
    (spot : Spot) : dropGap spot s = c :: rest := by
  induction size : s.length using Nat.strong_induction_on generalizing s with
  | _ size ih =>
    rw [dropGap_step] at gap ⊢
    cases found : dropComment .single (s.dropWhile Text.isPlainBlank) with
    | none =>
      rw [found] at gap
      dsimp only at gap
      rw [gap, dropComment_solid solid]
    | some behind =>
      have block : dropComment spot (s.dropWhile Text.isPlainBlank) = some behind := by
        unfold dropComment at found ⊢
        split at found
        · exact found
        · cases found
        · cases found
      have shorter := dropComment_lt found
      have blanks := (takes_dropWhile Text.isPlainBlank s).length_le
      rw [found] at gap
      rw [block]
      exact ih _ (by omega) gap rfl

theorem Edge.dropGap (edge : Edge s core) (spot : Spot) : dropGap spot s = core := by
  obtain ⟨-, gap, c, rest, rfl, ends⟩ := edge
  refine dropGap_of_single ?_ gap spot
  rintro rfl
  revert ends
  decide

/-- Blanks in front of what ends a value. -/
theorem edge_of_blanks {gap : List Char} {c : Char} (blank : ∀ b ∈ gap, Text.isPlainBlank b = true)
    (ends : isEnd c = true) (rest : List Char) : Edge (gap ++ c :: rest) (c :: rest) := by
  have mark := isEnd_mem ends
  have solid : (c :: rest).head?.any beginsGap = false := by
    have none := List.all_eq_true.mp (by decide : [';', '}', '!'].all (fun c => !beginsGap c) = true) c
      (by simpa [isEnd, or_assoc] using ends)
    simpa using none
  refine ⟨?_, ?_, c, rest, rfl, ends⟩
  · intro d first
    cases gap with
    | nil =>
      cases first
      exact mark
    | cons b gap =>
      cases first
      exact plainBlank_mem (blank _ (by simp))
  · obtain ⟨stays, none⟩ := @dropComment_of_solid .single _ solid
    rw [dropGap_step, List.dropWhile_append_of_pos blank, stays, none]

include edge edge'

/-- The gap that a text begins with ends in it, or it goes on to what ends a value. -/
theorem dropGap_seam {spot : Spot} {z : List Char} (shut : Shut s' z) (stops : Within s spot z) :
    (∃ c y, c :: y <:+ z ∧ dropGap spot (z ++ s) = c :: y ++ s ∧ dropGap spot (z ++ s') = c :: y ++ s') ∨
      (dropGap spot (z ++ s) = core ∧ dropGap spot (z ++ s') = core') := by
  induction size : z.length using Nat.strong_induction_on generalizing z with
  | _ size ih =>
    have behind : z.dropWhile Text.isPlainBlank <:+ z := List.dropWhile_suffix _
    cases solid : z.dropWhile Text.isPlainBlank with
    | nil =>
      have gap {s core : List Char} (edge : Edge s core) : dropGap spot (z ++ s) = core := by
        have blanks : (z ++ s).dropWhile Text.isPlainBlank = s.dropWhile Text.isPlainBlank := by
          rw [List.dropWhile_append, solid]
          rfl
        rw [dropGap_step, blanks, ← dropGap_step, edge.dropGap]
      exact .inr ⟨gap edge, gap edge'⟩
    | cons c rest =>
      have blanks (s : List Char) : (z ++ s).dropWhile Text.isPlainBlank = c :: rest ++ s := by
        rw [List.dropWhile_append, solid]
        rfl
      have long : s.length ≤ (dropGap spot (z ++ s)).length := by
        rcases stops with rfl | long
        · cases solid
        · exact long
      rw [solid] at behind
      rw [dropGap_step, blanks] at long
      rw [dropGap_step, dropGap_step spot (z ++ s'), blanks, blanks]
      cases comment : dropComment spot (c :: rest ++ s) with
      | none =>
        rw [dropComment_seam_none edge.quiet edge'.quiet (shut.suffix behind) comment]
        exact .inl ⟨c, rest, behind, rfl, rfl⟩
      | some r =>
        rw [comment] at long
        dsimp only at long
        have taken := (takes_dropGap taking_all spot r).length_le
        -- A line that ends behind the seam would take the gap along.
        have other : r = s → s.head? ≠ some '\n' := by
          rintro rfl feed
          rw [edge.dropGap] at long
          have shorter := edge.length_lt feed
          omega
        have same (z : List Char) : slashesComment spot (z ++ ([] ++ s)) = slashesComment spot (z ++ s') := by
          rw [List.nil_append, slashesComment_seam edge.quiet, slashesComment_seam edge'.quiet]
        obtain ⟨y, within, rfl, comment'⟩ := dropComment_seam same (by simp) (.inl rfl) comment (by omega)
          fun stays => ⟨edge.filled, fun feed => absurd feed (other stays)⟩
        rw [List.nil_append] at *
        rw [comment']
        have suffix := (within.trans (List.suffix_cons c rest)).trans behind
        have shorter : y.length < z.length := by
          have := within.length_le
          have := behind.length_le
          simp only [List.length_cons] at this
          omega
        rcases ih _ (size ▸ shorter) (shut.suffix suffix) (.inr long) rfl with ⟨d, y', inner, both⟩ | both
        · exact .inl ⟨d, y', inner.trans suffix, both⟩
        · exact .inr both

/-- A gap that goes on to what ends a value does so in front of the other text as well. -/
theorem dropGap_seam_end {spot : Spot} {z : List Char} (shut : Shut s' z) (ends : dropGap spot (z ++ s) = core)
    (stops : Within s spot z) : dropGap spot (z ++ s') = core' := by
  rcases dropGap_seam edge edge' shut stops with ⟨c, y, -, inner, -⟩ | ⟨-, gap'⟩
  · have := edge.length_le
    rw [← ends, inner, List.length_append, List.length_cons] at this
    omega
  · exact gap'

/-- A gap that ends in a text ends there in front of the other text as well. -/
theorem dropGap_inside {spot : Spot} {c : Char} {y z : List Char} (shut : Shut s' z)
    (ends : dropGap spot (z ++ s) = c :: y ++ s) : dropGap spot (z ++ s') = c :: y ++ s' := by
  have stops : Within s spot z := .inr (by rw [ends, List.length_append]; omega)
  rcases dropGap_seam edge edge' shut stops with ⟨d, y', -, inner, inner'⟩ | ⟨last, -⟩
  · rw [inner', List.append_cancel_right (inner.symm.trans ends)]
  · have := edge.length_le
    rw [← last, ends, List.length_append, List.length_cons] at this
    omega


omit edge edge' in
theorem gapOf_eq {spot : Spot} {cs rest gap : List Char} (drops : dropGap spot cs = rest) (whole : cs = gap ++ rest) :
    gapOf spot cs = gap := by
  rw [gapOf, drops, before, whole]
  simp [cut]

omit edge edge' in
/-- A joint is the gap, or there is none. -/
theorem dropJoint_cases (spot : Spot) (cs : List Char) :
    dropJoint spot cs = dropGap spot cs ∨ dropJoint spot cs = cs := by
  unfold dropJoint
  split
  · exact .inl rfl
  · exact .inr rfl

omit edge edge' in
/-- Where something follows at a joint, the gap ends in front of it. -/
theorem within_of_joint {spot : Spot} {c : Char} {z : List Char} (first : (dropJoint spot (z ++ s)).head? = some c)
    (solid : beginsGap c = false) (long : s.length ≤ (dropJoint spot (z ++ s)).length) : Within s spot z := by
  refine .inr ?_
  rcases dropJoint_cases spot (z ++ s) with same | same
  · rwa [← same]
  · rw [same] at first long
    rwa [dropGap_solid (by rw [first]; exact solid)]

theorem dropJoint_seam {spot : Spot} {z : List Char} (shut : Shut s' z) (stops : Within s spot z) :
    (∃ c y, c :: y <:+ z ∧ dropJoint spot (z ++ s) = c :: y ++ s ∧ dropJoint spot (z ++ s') = c :: y ++ s') ∨
      ((∀ c ∈ (dropJoint spot (z ++ s)).head?, c ∈ jointChars) ∧
        ∀ c ∈ (dropJoint spot (z ++ s')).head?, c ∈ jointChars) := by
  rcases dropGap_seam edge edge' shut stops with ⟨c, y, ⟨gap, rfl⟩, inner, inner'⟩ | ⟨ends, ends'⟩
  · -- The gap itself is the same, and so is its last character.
    have gaps := @gapOf_eq spot _ _ gap inner (by simp)
    have gaps' := @gapOf_eq spot _ _ gap inner' (by simp)
    have joins (s : List Char) : (gap ++ c :: y ++ s).head? = (gap ++ c :: y).head? := by
      cases gap <;> rfl
    unfold dropJoint
    rw [gaps, gaps', inner, inner', joins, joins]
    split
    · exact .inl ⟨c, y, List.suffix_append gap _, rfl, rfl⟩
    · cases gap with
      | nil => exact .inl ⟨c, y, List.suffix_refl _, rfl, rfl⟩
      | cons d gap => exact .inl ⟨d, gap ++ c :: y, List.suffix_refl _, rfl, rfl⟩
  · have first {s core : List Char} (edge : Edge s core) (ends : dropGap spot (z ++ s) = core) :
        ∀ c ∈ (dropJoint spot (z ++ s)).head?, c ∈ jointChars := by
      intro c there
      rcases dropJoint_cases spot (z ++ s) with same | same
      · rw [same, ends] at there
        exact List.mem_cons_of_mem _ (edge.core_quiet c there)
      · rw [same] at there
        cases z with
        | nil => exact List.mem_cons_of_mem _ (edge.quiet c there)
        | cons d z =>
          cases there
          by_cases begins : beginsGap c = true
          · exact beginsGap_mem begins
          · have stays : dropGap spot (c :: z ++ s) = c :: z ++ s := dropGap_solid (by simpa using begins)
            have size := congrArg List.length (ends.symm.trans stays)
            have := edge.length_le
            simp only [List.length_append, List.length_cons] at size
            omega
    exact .inr ⟨first edge ends, first edge' ends'⟩

/-- A unit ends in front of the seam, and what follows at a joint at the seam is none. -/
theorem dropUnit_seam {spot : Spot} {y z : List Char} (shut : Shut s' z) (stops : Within s spot y)
    (found : dropUnit spot (z ++ s) = y ++ s) : dropUnit spot (z ++ s') = y ++ s' := by
  have units {s : List Char} (quiet : Quiet s) (y : List Char) :
      (y ++ s).dropWhile isUnitChar = y.dropWhile isUnitChar ++ s := dropWhile_seam (quiet.none (by decide)) y
  -- Where a unit was found, or nothing follows, the gap in front of it ends in front of the seam.
  have stops' : Within s spot z := by
    by_cases same : y = z
    · exact same ▸ stops
    · unfold dropUnit at found
      dsimp only at found
      split at found
      · have taken := (takes_dropWhile isUnitChar (dropJoint spot (z ++ s))).length_le
        rw [found, List.length_append] at taken
        rename_i unit
        obtain ⟨c, first, held⟩ := (Option.any_eq_true ..).mp (Bool.and_eq_true_iff.mp unit).1
        exact within_of_joint first (@solid_of isUnitChar (by decide) c held) (by omega)
      · exact absurd (List.append_cancel_right found).symm same
  rcases dropJoint_seam edge edge' shut stops' with ⟨c, w, suffix, joint, joint'⟩ | ⟨quiet, quiet'⟩
  · have goes {s core : List Char} (edge : Edge s core) (joint : dropJoint spot (z ++ s) = c :: w ++ s) :
        dropUnit spot (z ++ s) = (if isUnitChar c && !(dropNext spot (c :: w)).any (fun next =>
          decide (next.2.length < ((c :: w).dropWhile isUnitChar).length)) then (c :: w).dropWhile isUnitChar
          else z) ++ s := by
      unfold dropUnit
      dsimp only
      rw [joint, units edge.quiet, dropNext_seam edge.quiet]
      simp only [List.cons_append, List.head?_cons, Option.any_some, Option.any_map, inFront,
        List.length_append, Nat.add_lt_add_iff_right]
      split <;> rfl
    rw [goes edge joint] at found
    rw [goes edge' joint', List.append_cancel_right found]
  · have stays {s : List Char} (quiet : ∀ c ∈ (dropJoint spot (z ++ s)).head?, c ∈ jointChars) :
        dropUnit spot (z ++ s) = z ++ s := by
      have none : (dropJoint spot (z ++ s)).head?.any isUnitChar = false := by
        cases first : (dropJoint spot (z ++ s)).head? with
        | none => rfl
        | some c =>
          have all : jointChars.all (fun c => !isUnitChar c) = true := by decide
          simpa using List.all_eq_true.mp all c (quiet c first)
      unfold dropUnit
      dsimp only
      rw [if_neg (by simp [none])]
    rw [stays quiet] at found
    rw [stays quiet', List.append_cancel_right found]

end Edges

/-! ### Strings in front of the seam -/

theorem dropInside_cons {quote c : Char} (other : c ≠ quote) (solid : Text.isPlainBlank c = false) (rest : List Char) :
    dropInside quote false (c :: rest) = dropInside quote (c = '\\') rest := by
  have feed : c ≠ '\n' := by
    rintro rfl
    revert solid
    decide
  simp [dropInside, other, feed]

theorem dropInside_seam (quote : Char) (guarded : Bool) (z : List Char) :
    (∃ w, w <:+ z ∧ ∀ s, dropInside quote guarded (z ++ s) = w ++ s) ∨
      ∀ s, (dropInside quote guarded (z ++ s)).length ≤ s.length := by
  induction z generalizing guarded with
  | nil => exact .inr fun s => (takes_dropInside quote guarded s).length_le
  | cons c z ih =>
    by_cases stops : ((c = quote || c = '\n') && !guarded) = true
    · exact .inl ⟨c :: z, List.suffix_refl _, fun s => by rw [List.cons_append, dropInside, if_pos stops]⟩
    · rcases ih (c = '\\') with ⟨w, within, same⟩ | short
      · exact .inl ⟨w, within.trans (List.suffix_cons c z), fun s => by
          rw [List.cons_append, dropInside, if_neg stops, same]⟩
      · exact .inr fun s => by
          rw [List.cons_append, dropInside, if_neg stops]
          exact short s

theorem closeString_lt {quote : Char} {fuel : Nat} {cs rest : List Char}
    (found : closeString quote fuel cs = some rest) :
    rest.length < cs.length := by
  induction fuel generalizing cs with
  | zero => cases found
  | succ fuel ih =>
    have blanks := (takes_dropWhile Text.isPlainBlank cs).length_le
    unfold closeString at found
    split at found
    · cases found
    · rename_i c behind split
      rw [split] at blanks
      split at found
      · cases found
        exact blanks
      · have inside := (takes_dropInside quote false (c :: behind)).length_le
        dsimp only at found
        split at found
        · have shorter := ih found
          unfold later at shorter
          split at shorter <;> omega
        · exact Nat.lt_of_lt_of_le (ih found) (Nat.le_trans inside blanks)

theorem dropString_lt {cs rest : List Char} (found : dropString cs = some rest) : rest.length < cs.length := by
  unfold dropString at found
  split at found
  · split at found
    · exact Nat.lt_succ_of_lt (closeString_lt found)
    · cases found
  · cases found

/-- Blanks in front of a line of a string make no difference. -/
theorem closeString_blanks {quote : Char} {fuel : Nat} {cs cs' : List Char}
    (same : cs.dropWhile Text.isPlainBlank = cs'.dropWhile Text.isPlainBlank) :
    closeString quote fuel cs = closeString quote fuel cs' := by
  cases fuel with
  | zero => rfl
  | succ fuel =>
    unfold closeString
    rw [same]

theorem closeString_quote {quote c : Char} {z : List Char} (solid : Text.isPlainBlank c = false) (fuel : Nat)
    (same : c = quote) : closeString quote (fuel + 1) (c :: z) = some z := by
  unfold closeString
  rw [List.dropWhile_cons_of_neg (by simp [solid])]
  exact if_pos same

/-- In front of no comment a string goes on to the end of the line. -/
theorem closeString_line {quote c : Char} {z : List Char} (solid : Text.isPlainBlank c = false) (fuel : Nat)
    (other : c ≠ quote) (plain : c = '/' → z.head? ≠ some '*') :
    closeString quote (fuel + 1) (c :: z) = closeString quote fuel (dropInside quote (c = '\\') z) := by
  rw [← dropInside_cons other solid]
  conv => lhs; unfold closeString
  rw [List.dropWhile_cons_of_neg (by simp [solid])]
  dsimp only
  rw [if_neg other]
  split
  · rename_i comment
    have slash : c = '/' := by
      by_contra other
      rw [dropComment_solid other] at comment
      cases comment
    exact absurd rfl (plain slash)
  · rfl

/-- A comment at the beginning of a line hides quotes. -/
theorem closeString_comment {quote : Char} {t : List Char} (fuel : Nat) (other : '/' ≠ quote) :
    closeString quote (fuel + 1) ('/' :: '*' :: t) = closeString quote fuel (match afterComment t with
      | some behind => later (dropInside quote false ('*' :: t)) behind
      | none => dropInside quote false ('*' :: t)) := by
  have inside : dropInside quote false ('/' :: '*' :: t) = dropInside quote false ('*' :: t) :=
    dropInside_cons other (by decide) _
  conv => lhs; unfold closeString
  rw [List.dropWhile_cons_of_neg (by decide)]
  dsimp only
  rw [if_neg other, inside, dropComment_block]
  cases afterComment t <;> rfl

section Edges

variable (edge : Edge s core) (edge' : Edge s' core')

include edge edge'

theorem closeString_seam {quote : Char} {fuel fuel' : Nat} {x y : List Char} (shut : Shut s' x)
    (enough : x.length < fuel')
    (found : closeString quote fuel (x ++ s) = some (y ++ s)) :
    closeString quote fuel' (x ++ s') = some (y ++ s') := by
  induction fuel generalizing fuel' x with
  | zero => cases found
  | succ fuel ih =>
    obtain ⟨fuel', rfl⟩ : ∃ n, fuel' = n + 1 := ⟨fuel' - 1, by omega⟩
    have behind : x.dropWhile Text.isPlainBlank <:+ x := List.dropWhile_suffix _
    cases split : x.dropWhile Text.isPlainBlank with
    | nil =>
      -- The string would begin behind the seam.
      have blanks : (x ++ s).dropWhile Text.isPlainBlank = s.dropWhile Text.isPlainBlank := by
        rw [List.dropWhile_append, split]
        rfl
      have shorter := closeString_lt ((closeString_blanks blanks).symm.trans found)
      simp only [List.length_append] at shorter
      omega
    | cons c z =>
      have solid : Text.isPlainBlank c = false := by
        have first := List.head?_dropWhile_not Text.isPlainBlank x
        rw [split] at first
        simpa using first
      have blanks (s : List Char) :
          (x ++ s).dropWhile Text.isPlainBlank = (c :: z ++ s).dropWhile Text.isPlainBlank := by
        rw [List.dropWhile_append, split, List.cons_append, List.dropWhile_cons_of_neg (by simp [solid])]
        rfl
      rw [closeString_blanks (blanks s)] at found
      rw [closeString_blanks (blanks s')]
      rw [split] at behind
      have size := behind.length_le
      rw [List.length_cons] at size
      rw [List.cons_append] at found ⊢
      by_cases same : c = quote
      · rw [closeString_quote solid fuel same] at found
        rw [closeString_quote solid fuel' same]
        exact congrArg (fun y => some (y ++ s')) (List.append_cancel_right (Option.some.inj found))
      · -- What the string goes on with is a part of the text, or the string would not be closed in it.
        have goes {w : List Char} (within : w <:+ z) (found : closeString quote fuel (w ++ s) = some (y ++ s)) :
            closeString quote fuel' (w ++ s') = some (y ++ s') := by
          have suffix := (within.trans (List.suffix_cons c z)).trans behind
          have := within.length_le
          exact ih (shut.suffix suffix) (by omega) found
        have stays {cs : List Char} (short : cs.length ≤ s.length) (found : closeString quote fuel cs = some (y ++ s)) :
            False := by
          have shorter := closeString_lt found
          simp only [List.length_append] at shorter
          omega
        have line (guarded : Bool) {z' : List Char} (within : z' <:+ z)
            (found : closeString quote fuel (dropInside quote guarded (z' ++ s)) = some (y ++ s)) :
            closeString quote fuel' (dropInside quote guarded (z' ++ s')) = some (y ++ s') := by
          rcases dropInside_seam quote guarded z' with ⟨w, inner, inside⟩ | short
          · rw [inside] at found ⊢
            exact goes (inner.trans within) found
          · exact (stays (short s) found).elim
        by_cases comment : c = '/' ∧ z.head? = some '*'
        · obtain ⟨rfl, star⟩ := comment
          obtain ⟨t, rfl⟩ := List.head?_eq_some_iff.mp star
          rw [List.cons_append, closeString_comment fuel same] at found
          rw [List.cons_append, closeString_comment fuel' same]
          cases closed : afterComment t with
          | some rest =>
            obtain ⟨part, whole, -⟩ := takes_afterComment closed
            simp only [afterComment_append closed] at found ⊢
            rcases dropInside_seam quote false ('*' :: t) with ⟨w, inner, inside⟩ | short
            · have both (s : List Char) :
                  later (dropInside quote false ('*' :: (t ++ s))) (rest ++ s) = later w rest ++ s := by
                rw [← List.cons_append, inside, later, later]
                simp only [List.length_append, Nat.add_lt_add_iff_right]
                split <;> rfl
              rw [both] at found ⊢
              refine goes ?_ found
              unfold later
              split
              · exact ⟨'*' :: part, by simp [whole]⟩
              · exact inner
            · refine (stays ?_ found).elim
              have less := short s
              rw [List.cons_append] at less
              unfold later
              split <;> omega
          | none =>
            have open' : afterComment (t ++ s') = none := (shut t behind).resolve_left (by simp [closed])
            simp only [open']
            cases left : afterComment (t ++ s) with
            | none =>
              simp only [left] at found
              exact line false (List.suffix_refl _) found
            | some rest =>
              -- The comment would end behind the seam, and so would the string.
              simp only [left] at found
              refine (stays ?_ found).elim
              have shorter := afterComment_open closed left
              unfold later
              split <;> omega
        · have plain {s : List Char} (quiet : Quiet s) (slash : c = '/') : (z ++ s).head? ≠ some '*' := by
            cases z with
            | nil =>
              intro star
              exact absurd (quiet '*' star) (by decide)
            | cons d z => exact fun star => comment ⟨slash, star⟩
          rw [closeString_line solid fuel same (plain edge.quiet)] at found
          rw [closeString_line solid fuel' same (plain edge'.quiet)]
          exact line _ (List.suffix_refl _) found

/-- A string that is closed in a text is closed there in front of the other text as well. -/
theorem dropString_seam {x y : List Char} (shut : Shut s' x) (found : dropString (x ++ s) = some (y ++ s)) :
    dropString (x ++ s') = some (y ++ s') := by
  cases x with
  | nil =>
    have shorter := dropString_lt found
    simp only [List.length_append, List.nil_append] at shorter
    omega
  | cons c x =>
    unfold dropString at found ⊢
    rw [List.cons_append] at found ⊢
    dsimp only at found ⊢
    split at found
    · rename_i quote
      rw [if_pos quote]
      refine closeString_seam edge edge' (shut.suffix (List.suffix_cons c x)) ?_ found
      simp only [List.length_append]
      omega
    · cases found

end Edges

end Retouch.Sheet
