import Retouch.Sheet.SelectorForm
import Mathlib.Data.List.TakeWhile

/-!
# What readers take

Every reader of a stylesheet takes a part of the text and leaves the rest. What it takes is made of single
characters, of whole parentheses and brackets, and of marked parts: strings, escapes and comments, in which any character
can stand.

## Main statements

* `takes_dropChain` and `takes_dropSelector`: so are the texts of values and of selectors.

## Proof strategy

`Taking` lists how such texts are built, as two classes of texts, one for what stands outside of parentheses and one
for what stands inside. The readers are followed by their recursion, one case for each reader.
-/
namespace Retouch.Sheet

/-! ### Classes of texts -/

/-- The characters that begin a string, an escape or a comment. -/
def isMark (c : Char) : Bool := c = '"' || c = '\'' || c = '\\' || c = '/'

/-- The characters that divide: parentheses and commas. -/
def isDivider (c : Char) : Bool := c = '(' || c = ')' || c = ','

/-- Two classes of texts, closed under the ways in which readers take texts: one for texts that stand anywhere, one
for texts inside of parentheses. -/
structure Taking (outer inner : List Char → Prop) : Prop where
  nil : outer []
  append {a b : List Char} : outer a → outer b → outer (a ++ b)
  single {c : Char} : isDivider c = false → outer [c]
  marked {c : Char} (cs : List Char) : isMark c = true → outer (c :: cs)
  group {cs : List Char} : inner cs → outer ('(' :: cs ++ [')'])
  bracket {cs : List Char} : inner cs → outer ('[' :: cs ++ [']'])
  loosen {cs : List Char} : outer cs → inner cs
  inside {a b : List Char} : inner a → inner b → inner (a ++ b)
  comma : inner [',']

/-- A part of the text that is in a class was taken, and the rest is left. -/
def Takes (taken : List Char → Prop) (cs rest : List Char) : Prop := ∃ part, cs = part ++ rest ∧ taken part

/-- A part was taken up to a closing mark, and the mark as well. -/
def Closes (inner : List Char → Prop) (closer : Char) (cs rest : List Char) : Prop := Takes inner cs (closer :: rest)

theorem Takes.length_le {taken : List Char → Prop} {cs rest : List Char} (takes : Takes taken cs rest) :
    rest.length ≤ cs.length := by
  obtain ⟨part, rfl, -⟩ := takes
  simp

theorem Takes.suffix {taken : List Char → Prop} {cs rest : List Char} (takes : Takes taken cs rest) : rest <:+ cs := by
  obtain ⟨part, rfl, -⟩ := takes
  exact List.suffix_append part rest

/-- A text is cut where its part behind begins. -/
theorem cut_of_append (front behind : List Char) : cut (front ++ behind) behind = (front, behind) := by simp [cut]

theorem before_append (front behind : List Char) : before (front ++ behind) behind = front := by
  rw [before, cut_of_append]

theorem Takes.any {taken : List Char → Prop} {cs rest : List Char} (takes : Takes taken cs rest) :
    Takes (fun _ => True) cs rest := by
  obtain ⟨part, split, -⟩ := takes
  exact ⟨part, split, trivial⟩

theorem Closes.length_lt {inner : List Char → Prop} {closer : Char} {cs rest : List Char}
    (closes : Closes inner closer cs rest) : rest.length < cs.length := by
  obtain ⟨part, rfl, -⟩ := closes
  simp only [List.length_append, List.length_cons]
  omega

/-- All texts: what is taken is the front of the text. -/
theorem taking_all : Taking (fun _ => True) (fun _ => True) :=
  ⟨trivial, fun _ _ => trivial, fun _ => trivial, fun _ _ => trivial, fun _ => trivial, fun _ => trivial,
    fun _ => trivial, fun _ _ => trivial, trivial⟩

namespace Taking

variable {outer inner : List Char → Prop} (taking : Taking outer inner) {cs rest last : List Char} {c : Char}
  {spot : Spot}

include taking

theorem refl (cs : List Char) : Takes outer cs cs := ⟨[], rfl, taking.nil⟩

theorem trans {middle : List Char} (early : Takes outer cs middle) (late : Takes outer middle last) :
    Takes outer cs last := by
  obtain ⟨part, rfl, one⟩ := early
  obtain ⟨more, rfl, two⟩ := late
  exact ⟨part ++ more, by simp, taking.append one two⟩

theorem cons (divider : isDivider c = false) (takes : Takes outer cs rest) : Takes outer (c :: cs) rest := by
  obtain ⟨part, rfl, one⟩ := takes
  exact ⟨c :: part, rfl, taking.append (taking.single divider) one⟩

/-- From a mark on any text may be taken. -/
theorem mark (marked : isMark c = true) (takes : Takes (fun _ => True) cs rest) : Takes outer (c :: cs) rest := by
  obtain ⟨part, rfl, -⟩ := takes
  exact ⟨c :: part, rfl, taking.marked part marked⟩

theorem into (takes : Takes outer cs rest) : Takes inner cs rest := by
  obtain ⟨part, rfl, one⟩ := takes
  exact ⟨part, rfl, taking.loosen one⟩

theorem inside_trans {middle : List Char} (early : Takes inner cs middle) (late : Takes inner middle last) :
    Takes inner cs last := by
  obtain ⟨part, rfl, one⟩ := early
  obtain ⟨more, rfl, two⟩ := late
  exact ⟨part ++ more, by simp, taking.inside one two⟩

/-- A parenthesis with its inside. -/
theorem closing (closes : Closes inner ')' cs rest) : Takes outer ('(' :: cs) rest := by
  obtain ⟨part, rfl, one⟩ := closes
  exact ⟨'(' :: part ++ [')'], by simp, taking.group one⟩

/-- A bracket with its inside. -/
theorem bracketing (closes : Closes inner ']' cs rest) : Takes outer ('[' :: cs) rest := by
  obtain ⟨part, rfl, one⟩ := closes
  exact ⟨'[' :: part ++ [']'], by simp, taking.bracket one⟩

/-- A part with no character that divides. -/
theorem singles (part : List Char) (undivided : part.any isDivider = false) : Takes outer (part ++ rest) rest := by
  induction part with
  | nil => exact taking.refl rest
  | cons c part ih =>
    obtain ⟨first, others⟩ := Bool.or_eq_false_iff.mp undivided
    exact taking.cons first (ih others)

theorem dropWhile {holds : Char → Bool} (undivided : ∀ c, holds c = true → isDivider c = false) (cs : List Char) :
    Takes outer cs (cs.dropWhile holds) := by
  have taken := @singles _ _ taking (cs.dropWhile holds) (cs.takeWhile holds)
    (List.any_eq_false.mpr fun c member => by simp [undivided c (List.mem_takeWhile_imp member)])
  rwa [List.takeWhile_append_dropWhile] at taken

end Taking

/-- A class of characters without parentheses and commas. -/
theorem undivided_of {holds : Char → Bool} (none : holds '(' = false ∧ holds ')' = false ∧ holds ',' = false) (c : Char)
    (held : holds c = true) : isDivider c = false := by
  rw [Bool.eq_false_iff]
  intro divider
  simp only [isDivider, Bool.or_eq_true, decide_eq_true_eq, or_assoc] at divider
  rcases divider with rfl | rfl | rfl
  · exact absurd held (by simp [none.1])
  · exact absurd held (by simp [none.2.1])
  · exact absurd held (by simp [none.2.2])

/-! ### Blanks and comments -/

section Lexis

variable {outer inner : List Char → Prop} (taking : Taking outer inner) {cs rest : List Char} {spot : Spot}

theorem takes_dropWhile (holds : Char → Bool) (cs : List Char) : Takes (fun _ => True) cs (cs.dropWhile holds) :=
  ⟨cs.takeWhile holds, List.takeWhile_append_dropWhile.symm, trivial⟩

theorem takes_afterComment (found : afterComment cs = some rest) : Takes (fun _ => True) cs rest := by
  fun_induction afterComment cs with
  | case1 rest' =>
    cases found
    exact ⟨['*', '/'], rfl, trivial⟩
  | case2 c rest' other ih => exact taking_all.trans ⟨[c], rfl, trivial⟩ (ih found)
  | case3 => cases found

theorem undivided_blank (c : Char) (blank : Text.isPlainBlank c = true) : isDivider c = false :=
  undivided_of (by decide) c blank

include taking

theorem takes_dropComment (found : dropComment spot cs = some rest) : Takes outer cs rest := by
  unfold dropComment at found
  split at found
  · exact taking.mark rfl (taking_all.trans ⟨['*'], rfl, trivial⟩ (takes_afterComment found))
  · split at found
    · cases found
      exact taking.mark rfl (taking_all.trans ⟨['/'], rfl, trivial⟩ (takes_dropWhile _ _))
    · cases found
  · cases found

theorem takes_dropGapWithin (fuel : Nat) (cs : List Char) : Takes outer cs (dropGapWithin spot fuel cs) := by
  induction fuel generalizing cs with
  | zero => exact taking.refl cs
  | succ fuel ih =>
    have blanks := taking.dropWhile undivided_blank cs
    unfold dropGapWithin
    dsimp only
    split
    · rename_i rest found
      exact taking.trans blanks (taking.trans (takes_dropComment taking found) (ih rest))
    · exact blanks

theorem takes_dropGap (spot : Spot) (cs : List Char) : Takes outer cs (dropGap spot cs) := by
  unfold dropGap
  split
  · exact takes_dropGapWithin taking _ cs
  · exact taking.refl cs

theorem takes_dropJoint (spot : Spot) (cs : List Char) : Takes outer cs (dropJoint spot cs) := by
  unfold dropJoint
  split
  · exact takes_dropGap taking spot cs
  · exact taking.refl cs

/-! ### Names, words and strings -/

theorem takes_dropName (found : dropName cs = some rest) : Takes outer cs rest := by
  have tail (cs : List Char) : Takes outer cs (cs.dropWhile isNameChar) :=
    taking.dropWhile (undivided_of (by decide)) cs
  have first {c : Char} (start : isNameStart c = true) : isDivider c = false := undivided_of (by decide) c start
  unfold dropName at found
  split at found
  · cases found
    exact taking.cons rfl (taking.cons rfl (tail _))
  · split at found
    · rename_i start
      cases found
      exact taking.cons rfl (taking.cons (first start) (tail _))
    · cases found
  · split at found
    · rename_i start
      cases found
      exact taking.cons (first start) (tail _)
    · cases found
  · cases found

theorem takes_dropWordLead (cs : List Char) : Takes outer cs (dropWordLead cs) := by
  fun_induction dropWordLead cs with
  | case1 c rest held => exact taking.refl _
  | case2 c rest held ih =>
    exact taking.mark rfl (taking_all.trans ⟨[c], rfl, trivial⟩ ih.any)
  | case3 c rest _ held ih =>
    exact taking.cons (@undivided_of (fun c => c = '-' || c = '_') (by decide) c held) ih
  | case4 c rest other held => exact taking.refl _
  | case5 => exact taking.refl _

theorem takes_dropWordBody (cs : List Char) : Takes outer cs (dropWordBody cs) := by
  fun_induction dropWordBody cs with
  | case1 c rest held => exact taking.refl _
  | case2 c rest held ih =>
    exact taking.mark rfl (taking_all.trans ⟨[c], rfl, trivial⟩ ih.any)
  | case3 => exact taking.refl _
  | case4 c rest _ _ border => exact taking.refl _
  | case5 c rest _ _ border ih =>
    exact taking.cons (@undivided_of (fun c => !isBorder c) (by decide) c (by simpa using border)) ih
  | case6 => exact taking.refl _

theorem takes_dropWord (found : dropWord cs = some rest) : Takes outer cs rest := by
  have lead := takes_dropWordLead taking cs
  unfold dropWord at found
  split at found
  · rename_i c behind split
    split at found
    · rename_i letter
      cases found
      rw [split] at lead
      exact taking.trans lead (taking.cons (@undivided_of isLetter (by decide) c letter)
        (takes_dropWordBody taking behind))
    · cases found
  · cases found

omit taking in
theorem takes_dropInside (quote : Char) (guarded : Bool) (cs : List Char) :
    Takes (fun _ => True) cs (dropInside quote guarded cs) := by
  fun_induction dropInside quote guarded cs with
  | case1 => exact taking_all.refl _
  | case2 => exact taking_all.refl _
  | case3 _ c rest _ ih => exact taking_all.trans ⟨[c], rfl, trivial⟩ ih

omit taking in
theorem takes_closeString {quote : Char} {fuel : Nat} (found : closeString quote fuel cs = some rest) :
    Takes (fun _ => True) cs rest := by
  induction fuel generalizing cs with
  | zero => cases found
  | succ fuel ih =>
    have blanks := takes_dropWhile Text.isPlainBlank cs
    unfold closeString at found
    split at found
    · cases found
    · rename_i c behind split
      rw [split] at blanks
      refine taking_all.trans blanks ?_
      split at found
      · cases found
        exact ⟨[c], rfl, trivial⟩
      · have inside := takes_dropInside quote false (c :: behind)
        dsimp only at found
        split at found
        · rename_i skipped _ commented
          refine taking_all.trans ?_ (ih found)
          unfold later
          split
          · exact takes_dropComment taking_all commented
          · exact inside
        · exact taking_all.trans inside (ih found)

theorem takes_dropString (found : dropString cs = some rest) : Takes outer cs rest := by
  unfold dropString at found
  split at found
  · rename_i c behind
    split at found
    · rename_i quote
      refine taking.mark ?_ (takes_closeString found)
      simp only [isQuote, Bool.or_eq_true, decide_eq_true_eq] at quote
      rcases quote with rfl | rfl <;> rfl
    · cases found
  · cases found

/-! ### Numbers -/

theorem takes_dropDigits (found : dropDigits cs = some rest) : Takes outer cs rest := by
  have digits (cs : List Char) : Takes outer cs (cs.dropWhile Char.isDigit) :=
    taking.dropWhile (undivided_of (by decide)) cs
  have digit {c : Char} (held : c.isDigit = true) : isDivider c = false := @undivided_of Char.isDigit (by decide) c held
  have mantissa {e : Char} (held : (e = 'e' || e = 'E') = true) : isDivider e = false :=
    @undivided_of (fun e => e = 'e' || e = 'E') (by decide) e held
  unfold dropDigits at found
  extract_lets whole fraction last exponent at found
  have front : Takes outer cs whole := digits cs
  clear_value whole
  have pointed : Takes outer whole last := by
    cases fractioned : fraction with
    | none =>
      simp only [last, fractioned, Option.getD_none]
      exact taking.refl whole
    | some behind =>
      simp only [last, fractioned, Option.getD_some]
      simp only [fraction] at fractioned
      split at fractioned
      · rename_i d more
        split at fractioned
        · rename_i held
          cases fractioned
          exact taking.cons rfl (taking.cons (digit held) (digits more))
        · cases fractioned
      · cases fractioned
  clear_value last
  have raised : Takes outer last (exponent.getD last) := by
    cases powered : exponent with
    | none => exact taking.refl last
    | some behind =>
      simp only [exponent] at powered
      split at powered
      · rename_i e d more
        split at powered
        · rename_i held
          cases powered
          rw [Bool.and_eq_true] at held
          exact taking.cons (mantissa held.1) (taking.cons rfl (taking.cons (digit held.2) (digits more)))
        · cases powered
      · rename_i e d more _
        split at powered
        · rename_i held
          cases powered
          rw [Bool.and_eq_true] at held
          exact taking.cons (mantissa held.1) (taking.cons (digit held.2) (digits more))
        · cases powered
      · cases powered
  split at found
  · cases found
    exact taking.trans front (taking.trans pointed raised)
  · cases found

theorem takes_dropNumber (found : dropNumber cs = some rest) : Takes outer cs rest := by
  unfold dropNumber at found
  split at found
  · exact taking.cons rfl (takes_dropDigits taking found)
  · exact taking.cons rfl (takes_dropDigits taking found)
  · exact takes_dropDigits taking found

theorem takes_dropAtom {atom : Atom} (found : dropAtom cs = some (atom, rest)) : Takes outer cs rest := by
  unfold dropAtom at found
  extract_lets longer at found
  -- What is held so far and what may take its place were both read from the text.
  have kept {best : Option (Atom × List Char)} {kind : Atom} {next : Option (List Char)}
      (held : ∀ found ∈ best, Takes outer cs found.2) (read : ∀ rest ∈ next, Takes outer cs rest) :
      ∀ found ∈ longer best kind next, Takes outer cs found.2 := by
    intro found chosen
    simp only [longer] at chosen
    split at chosen
    · split at chosen
      · cases chosen
        exact read _ rfl
      · exact held _ chosen
    · cases chosen
      exact read _ rfl
    · exact held _ chosen
  exact kept (kept (kept (by simp) fun _ => takes_dropNumber taking) fun _ => takes_dropName taking)
    (fun _ => takes_dropWord taking) _ found

theorem takes_dropUnit (spot : Spot) (cs : List Char) : Takes outer cs (dropUnit spot cs) := by
  unfold dropUnit
  dsimp only
  split
  · exact taking.trans (takes_dropJoint taking spot cs)
      (taking.dropWhile (@undivided_of isUnitChar (by decide)) _)
  · exact taking.refl cs

theorem takes_dropColorCode (found : dropColorCode cs = some rest) : Takes outer cs rest := by
  unfold dropColorCode at found
  dsimp only at found
  split at found
  · cases found
  · cases found
    have digits : (cs.take (min (cs.takeWhile isHexDigit).length 8)).any isDivider = false := by
      refine List.any_eq_false.mpr fun c member => ?_
      have within : cs.take (min (cs.takeWhile isHexDigit).length 8) <+: cs.takeWhile isHexDigit := by
        have whole := List.prefix_iff_eq_take.mp (List.takeWhile_prefix isHexDigit (l := cs))
        have shorter := @List.take_prefix_take_left _ cs _ _ (Nat.min_le_left (cs.takeWhile isHexDigit).length 8)
        rwa [← whole] at shorter
      simp [@undivided_of isHexDigit (by decide) c (List.mem_takeWhile_imp (within.subset member))]
    have taken := @Taking.singles _ _ taking (cs.drop (min (cs.takeWhile isHexDigit).length 8)) _ digits
    rwa [List.take_append_drop] at taken

/-! ### Values -/

/-- What the readers of values take with a bound on the depth: a value, a chain and a series stand anywhere, arguments
close a parenthesis, and a list closes a bracket. -/
structure ValuesTake (outer inner : List Char → Prop) (fuel : Nat) : Prop where
  primary {behind : Spot} {cs rest : List Char} (found : dropPrimary behind fuel cs = some rest) : Takes outer cs rest
  chain {behind : Spot} {cs rest : List Char} (found : dropChain behind fuel cs = some rest) : Takes outer cs rest
  series {cs rest : List Char} (found : dropSeries fuel cs = some rest) : Takes outer cs rest
  arguments {cs rest : List Char} (found : dropArguments fuel cs = some rest) : Closes inner ')' cs rest
  groups {cs rest : List Char} (found : dropGroups fuel cs = some rest) : Closes inner ')' cs rest
  list {cs rest : List Char} (found : dropList fuel cs = some rest) : Closes inner ']' cs rest

section Step

variable {fuel : Nat} (ih : ValuesTake outer inner fuel)

include ih

theorem takes_dropPrimary_succ (found : dropPrimary spot (fuel + 1) cs = some rest) : Takes outer cs rest := by
  unfold dropPrimary at found
  split at found
  · rename_i number atom
    cases found
    exact taking.trans (takes_dropAtom taking atom) (takes_dropUnit taking spot number)
  · rename_i word atom
    cases found
    exact takes_dropAtom taking atom
  · rename_i name atom
    refine taking.trans (takes_dropAtom taking atom) ?_
    split at found
    · rename_i start joint
      have near := takes_dropJoint taking spot name
      rw [joint] at near
      exact taking.trans near (taking.closing (taking.inside_trans (taking.into (takes_dropGap taking .value start))
        (ih.arguments found)))
    · cases found
      exact taking.refl _
  · split at found
    · rename_i digits _
      exact taking.cons rfl (taking.trans (takes_dropJoint taking .outside digits) (takes_dropColorCode taking found))
    · rename_i items _
      exact taking.bracketing (taking.inside_trans (taking.into (takes_dropGap taking .value items)) (ih.list found))
    · rename_i value _
      obtain ⟨stop, chained, closed⟩ := Option.bind_eq_some_iff.mp found
      have gap := takes_dropGap taking .single stop
      split at closed
      · rename_i behind closing
        cases closed
        rw [closing] at gap
        exact taking.closing (taking.into (taking.trans (takes_dropGap taking .value value)
          (taking.trans (ih.chain chained) gap)))
      · cases closed
    · split at found
      · rename_i important
        cases found
        obtain ⟨behind, rfl⟩ := List.isPrefixOf_iff_prefix.mp important
        rw [List.drop_left]
        exact taking.singles importance (by decide)
      · exact takes_dropString taking found

theorem takes_dropChain_succ (found : dropChain spot (fuel + 1) cs = some rest) : Takes outer cs rest := by
  unfold dropChain at found
  obtain ⟨stop, first, found⟩ := Option.bind_eq_some_iff.mp found
  refine taking.trans (ih.primary first) ?_
  have gap := takes_dropGap taking spot stop
  split at found
  · rename_i c more split
    split at found
    · rename_i operator
      rw [Bool.and_eq_true] at operator
      rw [split] at gap
      exact taking.trans gap (taking.cons (@undivided_of isOperator (by decide) c operator.1)
        (taking.trans (takes_dropGap taking .value more) (ih.chain found)))
    · cases found
      exact taking.refl _
  · cases found
    exact taking.refl _

theorem takes_dropSeries_succ (found : dropSeries (fuel + 1) cs = some rest) : Takes outer cs rest := by
  unfold dropSeries at found
  obtain ⟨stop, first, rfl⟩ := Option.map_eq_some_iff.mp found
  refine taking.trans (ih.chain first) ?_
  cases more : dropSeries fuel (dropGap .series stop) with
  | none => exact taking.refl _
  | some behind => exact taking.trans (takes_dropGap taking .series stop) (ih.series more)

theorem closes_dropGroups_succ (found : dropGroups (fuel + 1) cs = some rest) : Closes inner ')' cs rest := by
  unfold dropGroups at found
  obtain ⟨stop, first, found⟩ := Option.bind_eq_some_iff.mp found
  have front := taking.into (taking.trans (ih.series first) (takes_dropGap taking .series stop))
  refine taking.inside_trans front ?_
  split at found
  · rename_i behind split
    cases found
    rw [split]
    exact taking.into (taking.refl _)
  · rename_i c more _ split
    split at found
    · rename_i between
      have one : Takes inner (c :: more) more := by
        simp only [Bool.or_eq_true, decide_eq_true_eq] at between
        rcases between with rfl | rfl
        · exact ⟨[','], rfl, taking.comma⟩
        · exact taking.into (taking.cons rfl (taking.refl more))
      rw [split]
      exact taking.inside_trans one (taking.inside_trans (taking.into (takes_dropGap taking .value more))
        (ih.groups found))
    · cases found
  · cases found

theorem closes_dropArguments_succ (found : dropArguments (fuel + 1) cs = some rest) : Closes inner ')' cs rest := by
  unfold dropArguments at found
  split at found
  · cases found
    exact taking.into (taking.refl _)
  · exact ih.groups found

theorem closes_dropList_succ (found : dropList (fuel + 1) cs = some rest) : Closes inner ']' cs rest := by
  unfold dropList at found
  obtain ⟨stop, first, found⟩ := Option.bind_eq_some_iff.mp found
  refine taking.inside_trans (taking.into (taking.trans (ih.chain first) (takes_dropGap taking .single stop))) ?_
  split at found
  · rename_i behind split
    cases found
    rw [split]
    exact taking.into (taking.refl _)
  · rename_i more split
    rw [split]
    exact taking.inside_trans ⟨[','], rfl, taking.comma⟩
      (taking.inside_trans (taking.into (takes_dropGap taking .value more)) (ih.list found))
  · cases found

end Step

theorem valuesTake (fuel : Nat) : ValuesTake outer inner fuel := by
  induction fuel with
  | zero =>
    constructor <;> intros <;> rename_i found <;> cases found
  | succ fuel ih =>
    exact ⟨takes_dropPrimary_succ taking ih, takes_dropChain_succ taking ih, takes_dropSeries_succ taking ih,
      closes_dropArguments_succ taking ih, closes_dropGroups_succ taking ih, closes_dropList_succ taking ih⟩

theorem takes_dropValue (found : dropValue spot cs = some rest) : Takes outer cs rest :=
  (valuesTake taking _).chain found

/-! ### Parts of selectors -/

theorem takes_dropEscape (found : dropEscape cs = some rest) : Takes outer cs rest := by
  unfold dropEscape at found
  split at found
  · rename_i c behind
    refine taking.mark rfl (taking_all.trans ⟨[c], rfl, trivial⟩ ?_)
    split at found
    · cases found
      exact ⟨_, (List.take_append_drop _ behind).symm, trivial⟩
    · split at found
      · cases found
      · cases found
        exact taking_all.refl _
  · cases found

theorem takes_dropDescent (found : dropDescent cs = some rest) : Takes outer cs rest := by
  unfold dropDescent at found
  dsimp only at found
  split at found
  · cases found
    exact taking.dropWhile (@undivided_of isWideBlank (by decide)) cs
  · cases found

theorem takes_classPart (found : (dropName cs).or (dropEscape cs) = some rest) : Takes outer cs rest := by
  rcases Option.or_eq_some_iff.mp found with name | ⟨-, escape⟩
  · exact takes_dropName taking name
  · exact takes_dropEscape taking escape

theorem takes_dropClassParts (fuel : Nat) (cs : List Char) : Takes outer cs (dropClassParts fuel cs) := by
  induction fuel generalizing cs with
  | zero => exact taking.refl cs
  | succ fuel ih =>
    have blanks := taking.dropWhile undivided_blank cs
    unfold dropClassParts
    split
    · exact taking.refl cs
    · dsimp only
      split
      · rename_i behind comment
        split
        · exact taking.trans blanks (taking.trans (takes_dropComment taking comment) (ih behind))
        · exact taking.refl cs
      · split
        · rename_i behind part
          exact taking.trans blanks (taking.trans (takes_classPart taking part) (ih behind))
        · exact taking.refl cs

theorem takes_dropClassName (found : dropClassName cs = some rest) : Takes outer cs rest := by
  obtain ⟨first, part, rfl⟩ := Option.map_eq_some_iff.mp found
  exact taking.trans (takes_classPart taking part) (takes_dropClassParts taking _ first)

theorem takes_dropText {word : String} (undivided : word.toList.any isDivider = false)
    (found : dropText word cs = some rest) : Takes outer cs rest := by
  unfold dropText at found
  split at found
  · rename_i front
    cases found
    obtain ⟨behind, rfl⟩ := List.isPrefixOf_iff_prefix.mp front
    rw [← String.length_toList, List.drop_left]
    exact taking.singles word.toList undivided
  · cases found

/-- The closing mark that a text goes on with. -/
theorem closes_dropText {closer : Char} (found : dropText (String.singleton closer) cs = some rest) :
    Closes inner closer cs rest := by
  unfold dropText at found
  split at found
  · rename_i front
    cases found
    obtain ⟨behind, rfl⟩ := List.isPrefixOf_iff_prefix.mp front
    simpa [Closes] using taking.into (taking.refl (closer :: behind))
  · cases found

theorem takes_digits (cs : List Char) : Takes outer cs (cs.dropWhile Char.isDigit) :=
  taking.dropWhile (@undivided_of Char.isDigit (by decide)) cs

theorem takes_dropMultiple (found : dropMultiple cs = some rest) : Takes outer cs rest := by
  unfold dropMultiple at found
  extract_lets unsigned at found
  have front : Takes outer cs unsigned := by
    cases signed : dropText "-" cs with
    | none => simpa only [unsigned, signed, Option.getD_none] using taking.refl cs
    | some behind => simpa only [unsigned, signed, Option.getD_some] using takes_dropText taking (by decide) signed
  refine taking.trans front (taking.trans (takes_digits taking unsigned) ?_)
  split at found
  · rename_i behind split
    rw [split]
    refine taking.cons rfl ?_
    have gap := takes_dropGap taking .outside behind
    split at found
    · rename_i c more next
      split at found
      · rename_i sign
        dsimp only at found
        split at found
        · cases found
          rw [next] at gap
          exact taking.trans gap (taking.cons (@undivided_of (fun c => c = '+' || c = '-') (by decide) c sign)
            (taking.trans (takes_dropGap taking .outside more) (takes_digits taking _)))
        · cases found
      · cases found
        exact taking.refl _
    · cases found
      exact taking.refl _
  · cases found

theorem takes_dropInteger (found : dropInteger cs = some rest) : Takes outer cs rest := by
  unfold dropInteger at found
  extract_lets digits behind at found
  have front : Takes outer cs digits := by
    simp only [digits]
    split
    · exact taking.cons rfl (taking.refl _)
    · exact taking.cons rfl (taking.refl _)
    · exact taking.refl cs
  split at found
  · cases found
    exact taking.trans front (taking.trans (takes_digits taking digits) (takes_dropUnit taking .single behind))
  · cases found

theorem takes_dropCount (found : dropCount cs = some rest) : Takes outer cs rest := by
  unfold dropCount at found
  simp only [Option.or_eq_some_iff] at found
  rcases found with ((even | ⟨-, odd⟩) | ⟨-, multiple⟩) | ⟨-, integer⟩
  · exact takes_dropText taking (by decide) even
  · exact takes_dropText taking (by decide) odd
  · exact takes_dropMultiple taking multiple
  · exact takes_dropInteger taking integer

theorem takes_dropAttributeName (found : dropAttributeName cs = some rest) : Takes outer cs rest := by
  unfold dropAttributeName at found
  extract_lets first ended at found
  have stays {stop last : List Char} (held : ended stop = some last) : last = stop := by
    simp only [ended] at held
    split at held
    · cases held
    · exact (Option.some.inj held).symm
  obtain ⟨stop, begun, found⟩ := Option.bind_eq_some_iff.mp found
  obtain ⟨start, named, held⟩ := Option.bind_eq_some_iff.mp begun
  have front : Takes outer cs start := by
    simp only [first] at named
    split at named
    · cases named
      exact taking.cons rfl (taking.refl _)
    · cases named
      exact taking.refl _
    · exact takes_dropName taking named
  rw [stays held] at found
  refine taking.trans front ?_
  have gap := takes_dropGap taking .outside start
  split at found
  · rename_i c more next
    rw [next] at gap
    split at found
    · cases found
      exact taking.refl _
    · refine taking.trans gap (taking.cons rfl ?_)
      have second := takes_dropGap taking .outside (c :: more)
      refine taking.trans second ?_
      split at found
      · rename_i behind last
        rw [last, stays found]
        exact taking.cons rfl (taking.refl _)
      · obtain ⟨behind, name, held⟩ := Option.bind_eq_some_iff.mp found
        rw [stays held]
        exact takes_dropName taking name
  · split at found
    · cases found
    · cases found
      exact taking.refl _

theorem closes_dropAttribute (found : dropAttribute cs = some rest) : Closes inner ']' cs rest := by
  unfold dropAttribute at found
  obtain ⟨stop, name, found⟩ := Option.bind_eq_some_iff.mp found
  obtain ⟨behind, value, closed⟩ := Option.bind_eq_some_iff.mp found
  refine taking.inside_trans (taking.into ?_) (closes_dropText taking closed)
  refine taking.trans (takes_dropGap taking .outside cs) (taking.trans (takes_dropAttributeName taking name) ?_)
  have gap := takes_dropGap taking .outside stop
  split at value
  · rename_i start matcher
    obtain ⟨last, read, rfl⟩ := Option.map_eq_some_iff.mp value
    refine taking.trans gap (taking.trans ?_ (taking.trans (takes_dropGap taking .value start)
      (taking.trans (takes_dropValue taking read) (takes_dropGap taking .single last))))
    unfold dropMatcher at matcher
    split at matcher
    · rename_i next
      cases matcher
      rw [next]
      exact taking.cons rfl (taking.refl _)
    · rename_i c more _ next
      split at matcher
      · rename_i known
        cases matcher
        rw [next]
        have undivided : isDivider c = false :=
          @undivided_of (fun c => ['~', '^', '|', '*', '$'].contains c) (by decide) c known
        exact taking.cons undivided (taking.cons rfl (taking.refl _))
      · cases matcher
    · cases matcher
  · cases value
    exact gap

/-! ### Selectors -/

/-- What the readers of selectors take with a bound on the depth. What may follow a simple selector is taken from where
the last one ended, or from behind comments that were passed since. -/
structure SelectorsTake (outer inner : List Char → Prop) (fuel : Nat) : Prop where
  selector {cs rest : List Char} (found : dropSelector fuel cs = some rest) : Takes outer cs rest
  row {start done cs : List Char} (ended : Takes outer start done) (passed : Takes outer start cs) :
    Takes outer start (dropRow fuel done cs)
  simple {cs rest : List Char} (found : dropSimple fuel cs = some rest) : Takes outer cs rest
  selectors {cs rest : List Char} (found : dropSelectorArguments fuel cs = some rest) : Closes inner ')' cs rest
  innerList {cs rest : List Char} (found : dropInnerList fuel cs = some rest) : Closes inner ')' cs rest
  count {cs rest : List Char} (found : dropCountArguments fuel cs = some rest) : Closes inner ')' cs rest
  mixed {mayEnd : Bool} {cs rest : List Char} (found : dropMixed fuel mayEnd cs = some rest) : Closes inner ')' cs rest

section Step

variable {fuel : Nat} (ih : SelectorsTake outer inner fuel)

include ih

theorem takes_dropSelector_succ (found : dropSelector (fuel + 1) cs = some rest) : Takes outer cs rest := by
  unfold dropSelector at found
  split at found
  · cases found
  · rename_i c behind
    split at found
    · rename_i combinator
      exact taking.cons (@undivided_of isCombinator (by decide) c combinator)
        (taking.trans (takes_dropGap taking .outside behind) (ih.selector found))
    · extract_lets first at found
      obtain ⟨stop, begun, rfl⟩ := Option.map_eq_some_iff.mp found
      have front : Takes outer (c :: behind) stop := by
        simp only [first] at begun
        split at begun
        · rename_i universal
          cases begun
          exact taking.cons (universal ▸ rfl) (taking.refl _)
        · split at begun
          · rename_i nesting
            refine taking.cons (nesting ▸ rfl) ?_
            split at begun
            · cases begun
              exact taking.refl _
            · cases begun
              cases name : dropClassName (dropGap .outside behind) with
              | none => exact taking.refl behind
              | some last => exact taking.trans (takes_dropGap taking .outside behind) (takes_dropClassName taking name)
          · split at begun
            · exact takes_dropString taking begun
            · rcases Option.or_eq_some_iff.mp begun with name | ⟨-, simple⟩
              · exact takes_dropName taking name
              · exact ih.simple simple
      exact ih.row front front

theorem takes_dropRow_succ {start done : List Char} (ended : Takes outer start done) (passed : Takes outer start cs) :
    Takes outer start (dropRow (fuel + 1) done cs) := by
  have further {behind : List Char} (next : Takes outer start behind) :
      Takes outer start ((dropSelector fuel behind).getD done) := by
    cases read : dropSelector fuel behind with
    | none => exact ended
    | some last => exact taking.trans next (ih.selector read)
  have near := taking.trans passed (taking.dropWhile undivided_blank cs)
  unfold dropRow
  split
  · rename_i behind descent
    exact further (taking.trans passed (takes_dropDescent taking descent))
  · dsimp only
    split
    · rename_i behind comment
      exact ih.row ended (taking.trans near (takes_dropComment taking comment))
    · split
      · exact ended
      · rename_i c behind split
        rw [split] at near
        split
        · rename_i combinator
          exact further (taking.trans near (taking.cons (@undivided_of isCombinator (by decide) c combinator)
            (takes_dropGap taking .outside behind)))
        · split
          · rename_i last more
            have next : Takes outer start last := by
              refine taking.trans near ?_
              split at more
              · rename_i nesting
                exact taking.cons (nesting ▸ rfl)
                  (taking.trans (takes_dropGap taking .outside behind) (takes_dropClassName taking more))
              · split at more
                · cases more
                · rw [split] at more
                  exact ih.simple more
            exact ih.row next next
          · exact ended

theorem takes_dropSimple_succ (found : dropSimple (fuel + 1) cs = some rest) : Takes outer cs rest := by
  have arguments {start inside behind : List Char} (joint : dropJoint .outside start = '(' :: inside) (spot : Spot)
      (closes : Closes inner ')' (dropGap spot inside) behind) : Takes outer start behind := by
    have near := takes_dropJoint taking .outside start
    rw [joint] at near
    exact taking.trans near (taking.closing
      (taking.inside_trans (taking.into (takes_dropGap taking spot inside)) closes))
  unfold dropSimple at found
  split at found
  · rename_i behind
    exact taking.cons rfl (taking.trans (takes_dropGap taking .outside behind) (takes_dropClassName taking found))
  · rename_i behind
    exact taking.cons rfl (taking.trans (takes_dropGap taking .outside behind) (takes_dropName taking found))
  · exact taking.bracketing (closes_dropAttribute taking found)
  · rename_i behind
    obtain ⟨stop, name, found⟩ := Option.bind_eq_some_iff.mp found
    refine taking.cons rfl (taking.cons rfl (taking.trans (takes_dropGap taking .outside behind)
      (taking.trans (takes_dropName taking name) ?_)))
    split at found
    · rename_i joint
      exact arguments joint .value (ih.mixed found)
    · cases found
      exact taking.refl _
  · rename_i behind _
    split at found
    · cases found
    · refine taking.cons rfl (taking.trans (takes_dropGap taking .outside behind) ?_)
      extract_lets near name last at found
      have named : Takes outer near last := by
        simp only [last, name, nameOf]
        cases word : dropName near with
        | none => exact taking.refl near
        | some stop =>
          obtain ⟨part, split, undivided⟩ := takes_dropName taking word
          refine ⟨part, ?_, undivided⟩
          simp [before, cut, split]
      split at found
      · refine taking.trans named ?_
        split at found
        · rename_i joint
          exact arguments joint .outside (ih.selectors found)
        · cases found
      · split at found
        · refine taking.trans named ?_
          split at found
          · rename_i joint
            exact arguments joint .outside (ih.count found)
          · cases found
        · obtain ⟨stop, word, found⟩ := Option.bind_eq_some_iff.mp found
          refine taking.trans (takes_dropClassName taking word) ?_
          split at found
          · rename_i joint
            exact arguments joint .value (ih.mixed found)
          · cases found
            exact taking.refl _
  · cases found

theorem closes_dropSelectorArguments_succ (found : dropSelectorArguments (fuel + 1) cs = some rest) :
    Closes inner ')' cs rest := by
  unfold dropSelectorArguments at found
  split at found
  · cases found
    exact taking.into (taking.refl _)
  · exact ih.innerList found

theorem closes_dropInnerList_succ (found : dropInnerList (fuel + 1) cs = some rest) : Closes inner ')' cs rest := by
  unfold dropInnerList at found
  obtain ⟨stop, first, found⟩ := Option.bind_eq_some_iff.mp found
  refine taking.inside_trans (taking.into (taking.trans (ih.selector first) (takes_dropGap taking .outside stop))) ?_
  split at found
  · rename_i more split
    rw [split]
    exact taking.inside_trans ⟨[','], rfl, taking.comma⟩
      (taking.inside_trans (taking.into (takes_dropGap taking .outside more)) (ih.innerList found))
  · rename_i behind split
    cases found
    rw [split]
    exact taking.into (taking.refl _)
  · cases found

theorem closes_dropCountArguments_succ (found : dropCountArguments (fuel + 1) cs = some rest) :
    Closes inner ')' cs rest := by
  unfold dropCountArguments at found
  obtain ⟨stop, first, found⟩ := Option.bind_eq_some_iff.mp found
  refine taking.inside_trans (taking.into (taking.trans (takes_dropCount taking first)
    (takes_dropGap taking .outside stop))) ?_
  dsimp only at found
  split at found
  · rename_i more word
    obtain ⟨last, selector, closed⟩ := Option.bind_eq_some_iff.mp found
    refine taking.inside_trans (taking.into (taking.trans (takes_dropText taking (by decide) word)
      (taking.trans (takes_dropGap taking .outside more) (taking.trans (ih.selector selector)
        (takes_dropGap taking .outside last))))) (closes_dropText taking closed)
  · exact closes_dropText taking found

theorem closes_dropMixed_succ {mayEnd : Bool} (found : dropMixed (fuel + 1) mayEnd cs = some rest) :
    Closes inner ')' cs rest := by
  unfold dropMixed at found
  split at found
  · rename_i ended
    rw [Bool.and_eq_true, decide_eq_true_eq] at ended
    obtain ⟨behind, rfl⟩ := List.head?_eq_some_iff.mp ended.2
    cases found
    exact taking.into (taking.refl _)
  · extract_lets behind isValue joins isSelector at found
    have closes {stop last : List Char} (next : behind stop = some last) : Closes inner ')' stop last := by
      simp only [behind] at next
      refine taking.inside_trans (taking.into (takes_dropGap taking .outside stop)) ?_
      split at next
      · rename_i more split
        rw [split]
        exact taking.inside_trans ⟨[','], rfl, taking.comma⟩
          (taking.inside_trans (taking.into (takes_dropGap taking .value more)) (ih.mixed next))
      · rename_i split
        cases next
        rw [split]
        exact taking.into (taking.refl _)
      · cases next
    split at found
    · rename_i last read
      cases found
      split at read
      · cases read
      · obtain ⟨stop, selector, next⟩ := Option.bind_eq_some_iff.mp read
        exact taking.inside_trans (taking.into (ih.selector selector)) (closes next)
    · split at found
      · cases found
      · obtain ⟨stop, series, next⟩ := Option.bind_eq_some_iff.mp found
        exact taking.inside_trans (taking.into (taking.trans ((valuesTake taking _).series series)
          (takes_dropGap taking .series stop))) (closes next)

end Step

theorem selectorsTake (fuel : Nat) : SelectorsTake outer inner fuel := by
  induction fuel with
  | zero =>
    constructor
    case row => exact fun ended _ => ended
    all_goals
      intros
      rename_i found
      cases found
  | succ fuel ih =>
    exact ⟨takes_dropSelector_succ taking ih, takes_dropRow_succ taking ih, takes_dropSimple_succ taking ih,
      closes_dropSelectorArguments_succ taking ih, closes_dropInnerList_succ taking ih,
      closes_dropCountArguments_succ taking ih, closes_dropMixed_succ taking ih⟩

/-- The text of a selector. -/
theorem takes_dropSelector {fuel : Nat} (found : dropSelector fuel cs = some rest) : Takes outer cs rest :=
  (selectorsTake taking fuel).selector found

end Lexis

end Retouch.Sheet
