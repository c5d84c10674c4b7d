import Retouch.Markup.Reader
import Retouch.Markup.TextEdit
import Mathlib.Data.List.TakeWhile

/-!
# What is cut from markup sources

Each cut divides the text that it is made in: what it takes and what it leaves, joined, are the text.

## Main statements

* `Cuts`: a cut loses nothing, and one lemma for each kind of cut.
* `unmarked_of_cutReference`: no sign of markup stands in a reference.
-/
namespace Retouch.Markup

variable {cs front rest : List Char} {quote c : Char} {fuel : Nat}

/-- What a cut takes and what it leaves, joined, are the text. -/
def Cuts (cut : Option (List Char × List Char)) (cs : List Char) : Prop :=
  ∀ front rest, cut = some (front, rest) → front ++ rest = cs

namespace Cuts

theorem none (cs : List Char) : Cuts none cs := fun _ _ found => nomatch found

theorem some {front rest cs : List Char} (whole : front ++ rest = cs) : Cuts (some (front, rest)) cs := by
  intro _ _ found
  cases found
  exact whole

/-- A cut behind some characters. -/
theorem behind {cut : Option (List Char × List Char)} (cuts : Cuts cut cs) (before : List Char) :
    Cuts (cut.map fun (front, back) => (before ++ front, back)) (before ++ cs) := by
  intro front rest found
  obtain ⟨⟨first, last⟩, same, parts⟩ := Option.map_eq_some_iff.mp found
  obtain ⟨rfl, rfl⟩ := Prod.mk.inj parts
  rw [List.append_assoc, cuts _ _ same]

end Cuts

theorem cuts_quoted (quote : Char) (cs : List Char) : Cuts (cutQuoted quote cs) cs := by
  fun_induction cutQuoted quote cs with
  | case1 => exact .none _
  | case2 c rest ih => exact ih.behind ['\\', c]
  | case3 rest other => exact .some rfl
  | case4 => exact .none _
  | case5 c rest other different same ih => exact ih.behind [c]

theorem cuts_pattern (bracket : Bool) (cs : List Char) : Cuts (cutPattern bracket cs) cs := by
  fun_induction cutPattern bracket cs with
  | case1 => exact .none _
  | case2 => exact .none _
  | case3 bracket c rest other ih => exact ih.behind ['\\', c]
  | case4 => exact .none _
  | case5 bracket c rest other feed ends => exact .some rfl
  | case6 bracket c rest other feed inside ih => exact ih.behind [c]

theorem cuts_comment (cs : List Char) : Cuts (cutComment cs) cs := by
  fun_induction cutComment cs with
  | case1 rest => exact .some rfl
  | case2 c rest other ih => exact ih.behind [c]
  | case3 => exact .none _

theorem cuts_attribute (quote : Char) (cs : List Char) : Cuts (cutAttribute quote cs) cs := by
  fun_induction cutAttribute quote cs with
  | case1 => exact .none _
  | case2 => exact .some rfl
  | case3 c rest other ih => exact ih.behind [c]

theorem cuts_typeArguments (depth : Nat) (cs : List Char) : Cuts (cutTypeArguments depth cs) cs := by
  fun_induction cutTypeArguments depth cs with
  | case1 => exact .none _
  | case2 => exact .some rfl
  | case3 depth c rest inside deeper ih => exact ih.behind [c]

theorem cuts_anyComment (cs : List Char) : Cuts (cutAnyComment cs) cs := by
  unfold cutAnyComment
  split
  · rename_i rest
    exact (cuts_comment rest).behind ['/', '*']
  · rename_i rest
    exact .some (by simp [List.takeWhile_append_dropWhile])
  · exact .none _

theorem blanks_append (cs : List Char) : blanksOf cs ++ withoutBlanks cs = cs :=
  List.takeWhile_append_dropWhile

theorem cuts_tagName (fuel : Nat) (cs : List Char) : Cuts (cutTagName fuel cs) cs := by
  induction fuel generalizing cs with
  | zero => exact .none _
  | succ fuel ih =>
    unfold cutTagName
    split
    · exact .none _
    · rename_i c rest
      have word : (c :: rest.takeWhile isTagNameChar) ++ rest.dropWhile isTagNameChar = c :: rest := by
        rw [List.cons_append, List.takeWhile_append_dropWhile]
      split
      · dsimp only
        split
        · rename_i d more behind
          have after := blanks_append (rest.dropWhile isTagNameChar)
          rw [behind] at after
          split
          · split
            · rename_i name last inner
              have inside : blanksOf more ++ (name ++ last) = more := by
                rw [ih _ _ _ inner, blanks_append]
              exact .some (.trans (by simp [inside, after]) word)
            · exact .none _
          · exact .some word
        · exact .some word
      · exact .none _

theorem cuts_closingTag (cs : List Char) : Cuts (cutClosingTag cs) cs := by
  unfold cutClosingTag
  split
  · rename_i cs
    split
    · rename_i more slash
      dsimp only
      have first := blanks_append cs
      rw [slash] at first
      have body := blanks_append more
      have named : ((cutTagName (withoutBlanks more).length (withoutBlanks more)).getD ([], withoutBlanks more)).1 ++
          ((cutTagName (withoutBlanks more).length (withoutBlanks more)).getD ([], withoutBlanks more)).2 =
            withoutBlanks more := by
        cases cut : cutTagName (withoutBlanks more).length (withoutBlanks more) with
        | none => rfl
        | some parts => exact cuts_tagName _ _ _ _ cut
      generalize (cutTagName (withoutBlanks more).length (withoutBlanks more)).getD ([], withoutBlanks more) =
        parts at named ⊢
      obtain ⟨name, rest⟩ := parts
      dsimp only at named ⊢
      split
      · rename_i last ends
        have behind := blanks_append rest
        rw [ends] at behind
        have inner : blanksOf more ++ (name ++ (blanksOf rest ++ '>' :: last)) = more := by
          rw [behind, named, body]
        refine .some (.trans ?_ (congrArg ('<' :: ·) first))
        simp [inner]
      · exact .none _
    · exact .none _
  · exact .none _

/-- A closing tag ends with its sign. -/
theorem getLast?_of_cutClosingTag (cut : cutClosingTag cs = some (front, rest)) : front.getLast? = some '>' := by
  unfold cutClosingTag at cut
  split at cut
  · split at cut
    · dsimp only at cut
      split at cut
      · obtain ⟨rfl, -⟩ := Prod.mk.inj (Option.some.inj cut)
        exact List.getLast?_concat
      · cases cut
    · cases cut
  · cases cut

theorem cuts_upTo (most : Nat) (holds : Char → Bool) (cs : List Char) : Cuts (cutUpTo most holds cs) cs := by
  unfold cutUpTo
  dsimp only
  have whole := List.takeWhile_append_dropWhile (p := holds) (l := cs)
  split
  · rename_i rest behind
    rw [behind] at whole
    split
    · exact .none _
    · exact .some (.trans (by simp) whole)
  · exact .none _

theorem cuts_reference (cs : List Char) : Cuts (cutReference cs) cs := by
  unfold cutReference
  split
  · rename_i x rest
    split
    · exact (cuts_upTo _ _ _).behind ['&', '#', x]
    · exact (cuts_upTo _ _ _).behind ['&', '#']
  · rename_i rest _
    exact (cuts_upTo _ _ _).behind ['&']
  · exact .none _

/-! ### References -/

/-- No sign of markup stands in the text. -/
def Unmarked (cs : List Char) : Prop := ∀ c ∈ cs, isMarkupMark c = false

theorem unmarked_of_all {cs : List Char} (all : cs.all (fun c => !isMarkupMark c) = true) : Unmarked cs := by
  simpa [Unmarked] using all

theorem unmarked_append {xs ys : List Char} : Unmarked (xs ++ ys) ↔ Unmarked xs ∧ Unmarked ys := by
  simp [Unmarked, or_imp, forall_and]

/-- No sign of markup is a letter, a digit or a semicolon. -/
theorem unmarked_of_code (letter : c.isAlpha = true ∨ isHexChar c = true ∨ c.isDigit = true) :
    isMarkupMark c = false := by
  unfold isMarkupMark
  rw [Bool.eq_false_iff]
  intro mark
  simp only [Bool.or_eq_true, decide_eq_true_eq] at mark
  rcases mark with ((rfl | rfl) | rfl) | rfl <;> revert letter <;> decide

theorem unmarked_of_cutUpTo {most : Nat} {holds : Char → Bool} (cut : cutUpTo most holds cs = some (front, rest))
    (code : ∀ c, holds c = true → isMarkupMark c = false) : Unmarked front := by
  unfold cutUpTo at cut
  dsimp only at cut
  split at cut
  · split at cut
    · cases cut
    · obtain ⟨rfl, -⟩ := Prod.mk.inj (Option.some.inj cut)
      rw [unmarked_append]
      exact ⟨fun c member => code c (List.mem_takeWhile_imp member), by simp [Unmarked, isMarkupMark]⟩
  · cases cut

/-- No sign of markup stands in a reference. -/
theorem unmarked_of_cutReference (cut : cutReference cs = some (front, rest)) : Unmarked front := by
  unfold cutReference at cut
  split at cut
  · rename_i x rest'
    split at cut
    · rename_i hex
      obtain ⟨⟨first, last⟩, found, parts⟩ := Option.map_eq_some_iff.mp cut
      obtain ⟨rfl, -⟩ := Prod.mk.inj parts
      have inner := unmarked_of_cutUpTo found fun c code => unmarked_of_code (.inr (.inl code))
      have sign : Unmarked ['&', '#', x] := by
        have hex : x = 'x' ∨ x = 'X' := by simpa using hex
        rcases hex with rfl | rfl <;> simp [Unmarked, isMarkupMark]
      exact unmarked_append.mpr ⟨sign, inner⟩
    · obtain ⟨⟨first, last⟩, found, parts⟩ := Option.map_eq_some_iff.mp cut
      obtain ⟨rfl, -⟩ := Prod.mk.inj parts
      have inner := unmarked_of_cutUpTo found fun c code => unmarked_of_code (.inr (.inr code))
      have sign : Unmarked ['&', '#'] := by simp [Unmarked, isMarkupMark]
      exact unmarked_append.mpr ⟨sign, inner⟩
  · obtain ⟨⟨first, last⟩, found, parts⟩ := Option.map_eq_some_iff.mp cut
    obtain ⟨rfl, -⟩ := Prod.mk.inj parts
    have inner := unmarked_of_cutUpTo found fun c code => unmarked_of_code (.inl code)
    have sign : Unmarked ['&'] := by simp [Unmarked, isMarkupMark]
    exact unmarked_append.mpr ⟨sign, inner⟩
  · cases cut

/-- A part of a reference, its sign among them. -/
def isReferenceChar (c : Char) : Bool := c.isAlpha || c.isDigit || c = ';' || c = '#' || c = '&'

theorem referenceChar_of_code (letter : c.isAlpha = true ∨ isHexChar c = true ∨ c.isDigit = true) :
    isReferenceChar c = true := by
  have letters : c.isAlpha = true ∨ c.isDigit = true := by
    rcases letter with alpha | hex | digit
    · exact .inl alpha
    · simp only [isHexChar, Bool.or_eq_true, Bool.and_eq_true, decide_eq_true_eq] at hex
      rcases hex with (digit | ⟨first, last⟩) | ⟨first, last⟩
      · exact .inr digit
      · have lower : c.isLower = true :=
          Bool.and_eq_true_iff.mpr ⟨decide_eq_true first, decide_eq_true (Nat.le_trans last (by decide))⟩
        exact .inl (Bool.or_eq_true_iff.mpr (.inr lower))
      · have upper : c.isUpper = true := decide_eq_true ⟨first, Nat.le_trans last (by decide)⟩
        exact .inl (Bool.or_eq_true_iff.mpr (.inl upper))
    · exact .inr digit
  unfold isReferenceChar
  rcases letters with alpha | digit
  · simp [alpha]
  · simp [digit]

/-- No reference goes on or begins here. -/
def Breaks (tail : List Char) : Prop := ∀ c, tail.head? = some c → isReferenceChar c = false

variable {tail : List Char}

theorem Breaks.other (breaks : Breaks tail) {d : Char} {more : List Char} (same : tail = d :: more)
    (code : isReferenceChar c = true) : d ≠ c := by
  rintro rfl
  rw [breaks d (same ▸ rfl)] at code
  cases code

theorem cutUpTo_append {m : Nat} {holds : Char → Bool} (breaks : Breaks tail)
    (code : ∀ c, holds c = true → isReferenceChar c = true) (cs : List Char) :
    cutUpTo m holds (cs ++ tail) = (cutUpTo m holds cs).map fun (front, rest) => (front, rest ++ tail) := by
  unfold cutUpTo
  dsimp only
  have parts := List.takeWhile_append_dropWhile (p := holds) (l := cs)
  cases behind : cs.dropWhile holds with
  | nil =>
    rw [behind, List.append_nil] at parts
    have all : ∀ c ∈ cs, holds c = true := fun c member => List.mem_takeWhile_imp (parts.symm ▸ member)
    rw [List.dropWhile_append_of_pos all]
    cases tail with
    | nil => rfl
    | cons d tail =>
      have other : ¬holds d = true := by
        intro held
        have part := code d held
        rw [breaks d rfl] at part
        cases part
      rw [List.dropWhile_cons_of_neg other]
      split
      · rename_i same
        exact absurd (List.cons.inj same).1 (breaks.other rfl (by decide))
      · rfl
  | cons d more =>
    rw [behind] at parts
    have front : (cs ++ tail).takeWhile holds = cs.takeWhile holds := by
      rw [List.takeWhile_append, if_neg]
      intro whole
      have sizes := congrArg List.length parts
      simp only [List.length_append, List.length_cons] at sizes
      omega
    rw [List.dropWhile_append, behind, front]
    simp only [List.isEmpty_cons, Bool.false_eq_true, if_false, List.cons_append]
    by_cases last : d = ';'
    · subst last
      change (if _ then none else some (_, more ++ tail)) = Option.map _ (if _ then none else some (_, more))
      split <;> rfl
    · split
      · rename_i same
        exact absurd (List.cons.inj same).1 last
      · split
        · rename_i same
          exact absurd (List.cons.inj same).1 last
        · rfl

theorem cutReference_named (other : ∀ x rest, cs ≠ '#' :: x :: rest) :
    cutReference ('&' :: cs) = (cutUpTo 30 Char.isAlpha cs).map fun (front, back) => ('&' :: front, back) := by
  rw [cutReference]
  exact other

/-- Whether a text begins with a reference does not depend on what comes behind it. -/
theorem cutReference_append (breaks : Breaks tail) (cs : List Char) :
    cutReference (cs ++ tail) = (cutReference cs).map fun (front, rest) => (front, rest ++ tail) := by
  have names := fun cs => cutUpTo_append breaks (m := 30) (fun c code => referenceChar_of_code (.inl code)) cs
  have digits := fun cs => cutUpTo_append breaks (m := 5) (fun c code => referenceChar_of_code (.inr (.inr code))) cs
  have hex := fun cs => cutUpTo_append breaks (m := 6) (fun c code => referenceChar_of_code (.inr (.inl code))) cs
  by_cases mark : cs.head? = some '&'
  · obtain ⟨cs, rfl⟩ : ∃ rest, cs = '&' :: rest := by
      cases cs with
      | nil => cases mark
      | cons c rest => exact ⟨rest, by rw [Option.some.inj mark]⟩
    rw [List.cons_append]
    cases cs with
    | nil =>
      rw [List.nil_append, cutReference_named, ← List.nil_append tail, names, cutReference_named]
      · simp [Function.comp_def]
      · simp
      · intro x rest same
        exact breaks.other same (by decide) rfl
    | cons d more =>
      by_cases number : d = '#'
      · subst number
        cases more with
        | nil =>
          have none : cutReference ['&', '#'] = none := by decide
          rw [none]
          cases tail with
          | nil => exact none
          | cons x tail =>
            have letter : ¬(decide (x = 'x') || decide (x = 'X')) = true := by
              simp [breaks.other rfl (c := 'x') (by decide), breaks.other rfl (c := 'X') (by decide)]
            have found := digits []
            rw [List.nil_append] at found
            simp only [List.cons_append, List.nil_append, cutReference, if_neg letter, found]
            rfl
        | cons x more =>
          simp only [List.cons_append, cutReference]
          rw [← List.cons_append, digits, hex]
          split <;> simp [Function.comp_def]
      · have other (cs : List Char) : ∀ x rest, d :: cs ≠ '#' :: x :: rest :=
          fun x rest same => number (List.cons.inj same).1
        rw [List.cons_append, cutReference_named (other _), ← List.cons_append, names, cutReference_named (other _)]
        simp [Function.comp_def]
  · have none (cs : List Char) (mark : cs.head? ≠ some '&') : cutReference cs = none := by
      unfold cutReference
      split
      · simp at mark
      · simp at mark
      · rfl
    rw [none cs mark, none]
    · rfl
    · cases cs with
      | nil =>
        intro first
        exact absurd (breaks _ first) (by decide)
      | cons c rest => exact mark

theorem cutUpTo_again {m : Nat} {holds : Char → Bool} (cut : cutUpTo m holds cs = some (front, rest))
    (last : holds ';' = false) (other : List Char) :
    (∃ d more, front = d :: more ∧ holds d = true) ∧ cutUpTo m holds (front ++ other) = some (front, other) := by
  unfold cutUpTo at cut
  dsimp only at cut
  split at cut
  · split at cut
    · cases cut
    · rename_i some_
      obtain ⟨rfl, -⟩ := Prod.mk.inj (Option.some.inj cut)
      have all : ∀ c ∈ cs.takeWhile holds, holds c = true := fun c member => List.mem_takeWhile_imp member
      have taken : (cs.takeWhile holds ++ [';'] ++ other).takeWhile holds = cs.takeWhile holds := by
        rw [List.append_assoc, List.takeWhile_append_of_pos all]
        simp [last]
      have dropped : (cs.takeWhile holds ++ [';'] ++ other).dropWhile holds = ';' :: other := by
        rw [List.append_assoc, List.dropWhile_append_of_pos all]
        simp [last]
      refine ⟨?_, ?_⟩
      · cases first : cs.takeWhile holds with
        | nil => simp [first] at some_
        | cons d more => exact ⟨d, _, rfl, all d (by simp [first])⟩
      · unfold cutUpTo
        simp only [taken, dropped, if_neg some_]
  · cases cut

/-- A reference is cut again, whatever comes behind it. -/
theorem cutReference_again (cut : cutReference cs = some (front, rest)) (other : List Char) :
    cutReference (front ++ other) = some (front, other) := by
  unfold cutReference at cut
  split at cut
  · rename_i x rest'
    split at cut
    · rename_i hex
      obtain ⟨⟨first, last⟩, found, parts⟩ := Option.map_eq_some_iff.mp cut
      obtain ⟨rfl, -⟩ := Prod.mk.inj parts
      simp only [List.cons_append, cutReference, if_pos hex, (cutUpTo_again found (by decide) other).2]
      rfl
    · rename_i decimal
      obtain ⟨⟨first, last⟩, found, parts⟩ := Option.map_eq_some_iff.mp cut
      obtain ⟨rfl, -⟩ := Prod.mk.inj parts
      obtain ⟨⟨d, more, rfl, -⟩, again⟩ := cutUpTo_again found (by decide) other
      obtain ⟨rfl, -⟩ := List.cons.inj (cuts_upTo _ _ _ _ _ found)
      rw [List.cons_append] at again
      simp only [List.cons_append, cutReference, if_neg decimal, again]
      rfl
  · obtain ⟨⟨first, last⟩, found, parts⟩ := Option.map_eq_some_iff.mp cut
    obtain ⟨rfl, -⟩ := Prod.mk.inj parts
    obtain ⟨⟨d, more, rfl, letter⟩, again⟩ := cutUpTo_again found (by decide) other
    have named : ∀ x rest, d :: more ++ other ≠ '#' :: x :: rest := by
      intro x rest same
      rw [List.cons_append] at same
      rw [(List.cons.inj same).1] at letter
      revert letter
      decide
    rw [List.cons_append, cutReference_named named, again]
    rfl
  · cases cut

end Retouch.Markup
