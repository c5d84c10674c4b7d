import Retouch.Proofs.Sheet.Seam
import Retouch.Sheet.Item

/-!
# Declarations in front of other texts

What stands behind the colon of a declaration is read to the end of its values whatever follows them, and a mark of
importance that follows is read as it was.

## Main statements

* `declared_seam`: behind the values the reader goes on with what it reads of the text behind the seam alone.
-/
namespace Retouch.Sheet

variable {s core s' core' cs rest : List Char} {mark : Option (List Char)} {fuel : Nat}

/-! ### The values of a declaration -/

theorem dropValue_lt {spot : Spot} (found : dropValue spot cs = some rest) : rest.length < cs.length :=
  dropChain_lt found

/-- Whether the first value is the mark of importance, and the text from it on. -/
def markAt (cs rest : List Char) (mark : Option (List Char)) : Option (List Char) :=
  if importance.isPrefixOf cs && rest.length + importance.length = cs.length then some cs else mark

/-- The values of a declaration, with as much fuel as they can need. -/
def declared (mark : Option (List Char)) (cs : List Char) : Option (List Char × Option (List Char)) :=
  dropDeclared mark (cs.length + 1) cs

theorem dropDeclared_succ {found : List Char × Option (List Char)} : dropDeclared mark (fuel + 1) cs = some found ↔
    ∃ rest, dropValue .series cs = some rest ∧
      ((∃ more, dropGap .series rest = ',' :: more ∧
          dropDeclared (markAt cs rest mark) fuel (dropGap .value more) = some found) ∨
        (dropGap .series rest).head? ≠ some ',' ∧
          (dropDeclared (markAt cs rest mark) fuel (dropGap .series rest)).getD (rest, markAt cs rest mark) = found) := by
  conv => lhs; unfold dropDeclared
  cases value : dropValue .series cs with
  | none => simp
  | some rest =>
    simp only [Option.some.injEq, exists_eq_left']
    rw [← markAt]
    constructor
    · intro read
      split at read
      · exact .inl ⟨_, ‹_›, read⟩
      · rename_i other
        refine .inr ⟨fun comma => ?_, ?_⟩
        · obtain ⟨more, same⟩ := List.head?_eq_some_iff.mp comma
          exact other _ same
        · split at read <;> simp_all
    · rintro (⟨more, comma, read⟩ | ⟨other, read⟩)
      · rw [comma]
        exact read
      · split
        · rename_i more comma
          rw [comma] at other
          exact absurd rfl other
        · split <;> simp_all

/-- The bound on the number of values is never reached. -/
theorem dropDeclared_eq (enough : cs.length < fuel) : dropDeclared mark fuel cs = declared mark cs := by
  have same {fuel fuel' : Nat} {mark : Option (List Char)} {cs : List Char} (enough : cs.length < fuel)
      (enough' : cs.length < fuel') : dropDeclared mark fuel cs = dropDeclared mark fuel' cs := by
    induction fuel generalizing fuel' mark cs with
    | zero => omega
    | succ fuel ih =>
      obtain ⟨fuel', rfl⟩ : ∃ n, fuel' = n + 1 := ⟨fuel' - 1, by omega⟩
      ext found
      rw [dropDeclared_succ, dropDeclared_succ]
      refine exists_congr fun rest => and_congr_right fun value => ?_
      have shorter := dropValue_lt value
      have gap := (takes_dropGap taking_all .series rest).length_le
      rw [@ih fuel' _ (dropGap .series rest) (by omega) (by omega)]
      refine or_congr_left (exists_congr fun more => and_congr_right fun comma => ?_)
      rw [comma, List.length_cons] at gap
      have next := (takes_dropGap taking_all .value more).length_le
      rw [@ih fuel' _ (dropGap .value more) (by omega) (by omega)]
  exact same enough (Nat.lt_succ_self _)

theorem declared_iff {found : List Char × Option (List Char)} : declared mark cs = some found ↔
    ∃ rest, dropValue .series cs = some rest ∧
      ((∃ more, dropGap .series rest = ',' :: more ∧ declared (markAt cs rest mark) (dropGap .value more) = some found) ∨
        (dropGap .series rest).head? ≠ some ',' ∧
          (declared (markAt cs rest mark) (dropGap .series rest)).getD (rest, markAt cs rest mark) = found) := by
  rw [declared, dropDeclared_succ]
  refine exists_congr fun rest => and_congr_right fun value => ?_
  have shorter := dropValue_lt value
  have gap := (takes_dropGap taking_all .series rest).length_le
  rw [@dropDeclared_eq (dropGap .series rest) _ _ (by omega)]
  refine or_congr_left (exists_congr fun more => and_congr_right fun comma => ?_)
  rw [comma, List.length_cons] at gap
  have next := (takes_dropGap taking_all .value more).length_le
  rw [dropDeclared_eq (by omega)]

theorem declared_suffix {found : List Char × Option (List Char)} (read : declared mark cs = some found) :
    found.1 <:+ cs := by
  induction size : cs.length using Nat.strong_induction_on generalizing cs mark with
  | _ size ih =>
    obtain ⟨rest, value, next⟩ := declared_iff.mp read
    have shorter := dropValue_lt value
    have taken := (takes_dropValue taking_all value).suffix
    have gap := (takes_dropGap taking_all .series rest).suffix
    have size' := gap.length_le
    rcases next with ⟨more, comma, read⟩ | ⟨-, read⟩
    · have behind := (takes_dropGap taking_all .value more).suffix
      have := behind.length_le
      rw [comma] at gap
      rw [comma, List.length_cons] at size'
      exact (ih _ (by omega) read rfl).trans ((behind.trans (List.suffix_cons _ more)).trans (gap.trans taken))
    · cases further : declared (markAt cs rest mark) (dropGap .series rest) with
      | none =>
        rw [further] at read
        subst read
        exact taken
      | some found =>
        rw [further] at read
        subst read
        exact (ih _ (by omega) further rfl).trans (gap.trans taken)

theorem declared_lt {found : List Char × Option (List Char)} (read : declared mark cs = some found) :
    found.1.length < cs.length := by
  induction size : cs.length using Nat.strong_induction_on generalizing cs mark with
  | _ size ih =>
    obtain ⟨rest, value, next⟩ := declared_iff.mp read
    have shorter := dropValue_lt value
    have gap := (takes_dropGap taking_all .series rest).length_le
    rcases next with ⟨more, comma, read⟩ | ⟨-, read⟩
    · have behind := (takes_dropGap taking_all .value more).length_le
      rw [comma, List.length_cons] at gap
      have := ih _ (by omega) read rfl
      omega
    · cases further : declared (markAt cs rest mark) (dropGap .series rest) with
      | none =>
        rw [further] at read
        subst read
        rw [← size]
        exact shorter
      | some found =>
        rw [further] at read
        subst read
        have := ih _ (by omega) further rfl
        omega

/-- A mark in front of a text. -/
def markBefore (s : List Char) (mark : Option (List Char)) : Option (List Char) := mark.map (· ++ s)

/-- Whether a value is the mark of importance is seen in front of a seam. -/
theorem markAt_seam (x r : List Char) (mark : Option (List Char)) : ∃ mark', ∀ s : List Char,
    markAt (x ++ s) (r ++ s) (markBefore s mark) = markBefore s mark' := by
  have agree (s : List Char) : (importance.isPrefixOf (x ++ s) &&
      decide ((r ++ s).length + importance.length = (x ++ s).length)) = (importance.isPrefixOf x &&
        decide (r.length + importance.length = x.length)) := by
    refine Bool.eq_iff_iff.mpr ?_
    simp only [Bool.and_eq_true, decide_eq_true_eq, List.length_append, List.isPrefixOf_iff_prefix]
    constructor
    · rintro ⟨within, size⟩
      exact ⟨List.prefix_of_prefix_length_le within (List.prefix_append x s) (by omega), by omega⟩
    · rintro ⟨within, size⟩
      exact ⟨within.trans (List.prefix_append x s), by omega⟩
  cases here : importance.isPrefixOf x && decide (r.length + importance.length = x.length) with
  | false => exact ⟨mark, fun s => by unfold markAt; rw [agree, here]; rfl⟩
  | true => exact ⟨some x, fun s => by unfold markAt; rw [agree, here]; rfl⟩

/-- From its mark on a declaration is read in the same way. -/
theorem declared_from_mark {stop m : List Char} (read : declared mark cs = some (stop, some m)) (new : mark ≠ some m) :
    m <:+ cs ∧ importance.isPrefixOf m = true ∧ ∀ mark', declared mark' m = some (stop, some m) := by
  induction size : cs.length using Nat.strong_induction_on generalizing cs mark with
  | _ size ih =>
    obtain ⟨rest, value, next⟩ := declared_iff.mp read
    have shorter := dropValue_lt value
    have taken := (takes_dropValue taking_all value).suffix
    have gap := (takes_dropGap taking_all .series rest).suffix
    have size' := gap.length_le
    by_cases same : m = cs ∧ markAt cs rest mark = some m
    · obtain ⟨rfl, marks⟩ := same
      have here : (importance.isPrefixOf m && decide (rest.length + importance.length = m.length)) = true := by
        by_contra other
        exact new ((if_neg other).symm.trans marks)
      have always (mark : Option (List Char)) : markAt m rest mark = some m := if_pos here
      rw [marks] at next
      exact ⟨List.suffix_refl m, (Bool.and_eq_true_iff.mp here).1, fun mark' => declared_iff.mpr
        ⟨rest, value, by rw [always]; exact next⟩⟩
    · -- The mark is found in one of the values that follow.
      have other : markAt cs rest mark ≠ some m := by
        intro marks
        by_cases here : (importance.isPrefixOf cs && decide (rest.length + importance.length = cs.length)) = true
        · exact same ⟨(Option.some.inj ((if_pos here).symm.trans marks)).symm, marks⟩
        · exact new ((if_neg here).symm.trans marks)
      rcases next with ⟨more, comma, read⟩ | ⟨-, read⟩
      · have behind := (takes_dropGap taking_all .value more).suffix
        have := behind.length_le
        rw [comma] at gap
        rw [comma, List.length_cons] at size'
        obtain ⟨within, rest⟩ := ih _ (by omega) read other rfl
        exact ⟨within.trans ((behind.trans (List.suffix_cons _ more)).trans (gap.trans taken)), rest⟩
      · cases further : declared (markAt cs rest mark) (dropGap .series rest) with
        | none =>
          rw [further] at read
          exact absurd (congrArg Prod.snd read) other
        | some found =>
          rw [further] at read
          obtain rfl : found = (stop, some m) := read
          obtain ⟨within, rest⟩ := ih _ (by omega) further other rfl
          exact ⟨within.trans (gap.trans taken), rest⟩

section Edges

variable (edge : Edge s core) (edge' : Edge s' core')

include edge edge'

omit edge edge' in
/-- What ends a value is no value itself, but for the mark of importance. -/
theorem declared_ends {c : Char} (ends : c = ';' ∨ c = '}') (mark : Option (List Char)) :
    declared mark (c :: rest) = none := by
  have none : dropValue .series (c :: rest) = .none := by
    unfold dropValue valueFuel
    rw [dropChain, dropPrimary_quiet]
    · rfl
    · rcases ends with rfl | rfl <;> decide
    · rcases ends with rfl | rfl <;> decide
  refine Option.eq_none_iff_forall_ne_some.mpr fun found read => ?_
  obtain ⟨rest, value, -⟩ := declared_iff.mp read
  rw [none] at value
  cases value

/-- Behind the values of a text the reader goes on with what stands at the other seam. -/
theorem declared_seam {x y : List Char} {mark found : Option (List Char)} (shut : Shut s' x)
    (read : declared (markBefore s mark) (x ++ s) = some (y ++ s, found)) (ends : dropGap .series (y ++ s) = core)
    (stops : Within s .series y) : ∃ mark', found = markBefore s mark' ∧ declared (markBefore s' mark) (x ++ s') =
      some ((declared (markBefore s' mark') core').getD (y ++ s', markBefore s' mark')) := by
  induction size : x.length using Nat.strong_induction_on generalizing x mark with
  | _ size ih =>
    obtain ⟨r, value, next⟩ := declared_iff.mp read
    have shorter := dropValue_lt value
    have gap := (takes_dropGap taking_all .series r).length_le
    have long : s.length ≤ r.length := by
      rcases next with ⟨more, comma, read⟩ | ⟨-, read⟩
      · have := declared_lt read
        have := (takes_dropGap taking_all .value more).length_le
        rw [comma, List.length_cons] at gap
        simp only [List.length_append] at *
        omega
      · cases further : declared (markAt (x ++ s) r (markBefore s mark)) (dropGap .series r) with
        | none =>
          rw [further] at read
          cases read
          simp
        | some found =>
          rw [further] at read
          obtain rfl : found = _ := read
          have := declared_lt further
          simp only [List.length_append] at *
          omega
    obtain ⟨v, rfl, suffix⟩ := (takes_dropValue taking_all value).seam long
    obtain ⟨mark', marks⟩ := markAt_seam x v mark
    rw [marks] at next
    have within := shut.suffix suffix
    simp only [List.length_append] at shorter
    rcases next with ⟨more, comma, read⟩ | ⟨other, read⟩
    · rw [comma, List.length_cons] at gap
      have last := declared_lt read
      have opens := (takes_dropGap taking_all .value more).length_le
      simp only [List.length_append] at last
      obtain ⟨w, inner, rfl, gap'⟩ := dropGap_mark edge edge' within comma (by omega)
      have inside := within.suffix ((List.suffix_cons _ w).trans inner)
      obtain ⟨u, deeper, opening, opening'⟩ := dropGap_before edge edge' .value inside rfl (by omega)
      have := deeper.length_le
      have := inner.length_le
      rw [List.length_cons] at this
      have stops' : Within s .series v := .inr (by rw [comma, List.length_cons, List.length_append]; omega)
      rw [opening] at read
      obtain ⟨last, same, read'⟩ := ih _ (by omega) (inside.suffix deeper) read rfl
      refine ⟨last, same, declared_iff.mpr
        ⟨v ++ s', dropValue_seam edge edge' shut stops' value, .inl ⟨w ++ s', gap', ?_⟩⟩⟩
      rw [marks, opening']
      exact read'
    · cases further : declared (markBefore s mark') (dropGap .series (v ++ s)) with
      | none =>
        rw [further] at read
        obtain rfl : v = y := List.append_cancel_right (congrArg Prod.fst read)
        -- The gap behind the last value goes on to the seam.
        have gap' := dropGap_seam_end edge edge' within ends stops
        have quiet' : core'.head? ≠ some ',' := by
          obtain ⟨-, -, c, rest, rfl, mark⟩ := edge'
          rintro ⟨⟩
          cases mark
        refine ⟨mark', (congrArg Prod.snd read).symm, declared_iff.mpr
          ⟨v ++ s', dropValue_seam edge edge' shut stops value, .inr ⟨gap' ▸ quiet', ?_⟩⟩⟩
        rw [marks, gap']
      | some found' =>
        rw [further] at read
        obtain rfl : found' = _ := read
        have last := declared_lt further
        simp only [List.length_append] at last
        obtain ⟨w, inner, same, gap'⟩ := dropGap_before edge edge' .series within rfl (by omega)
        have := inner.length_le
        have stops' : Within s .series v := .inr (by omega)
        rw [same] at further
        obtain ⟨last', same', read'⟩ := ih _ (by omega) (within.suffix inner) further rfl
        refine ⟨last', same', declared_iff.mpr
          ⟨v ++ s', dropValue_seam edge edge' shut stops' value, .inr ⟨?_, ?_⟩⟩⟩
        · rw [same] at other last
          rw [gap']
          cases w with
          | nil =>
            rw [List.nil_append] at last
            omega
          | cons c w => exact other
        · rw [marks, gap', read']
          rfl

end Edges

/-! ### The name and the colon -/

/-- Behind a name stands nothing that belongs to it. -/
theorem dropName_bare (found : dropName cs = some rest) : ∀ c ∈ rest.head?, isNameChar c = false := by
  have tail (cs : List Char) : ∀ c ∈ (cs.dropWhile isNameChar).head?, isNameChar c = false := by
    intro c first
    have last := List.head?_dropWhile_not isNameChar cs
    rw [first] at last
    exact last
  unfold dropName at found
  split at found
  · cases found
    exact tail _
  · split at found
    · cases found
      exact tail _
    · cases found
  · split at found
    · cases found
      exact tail _
    · cases found
  · cases found

/-- A name is read in front of whatever does not belong to it. -/
theorem dropName_seam_name {name : List Char} (found : dropName (name ++ rest) = some rest)
    (bare : ∀ c ∈ s.head?, isNameChar c = false) : dropName (name ++ s) = some s := by
  rw [dropName_local (dropName_bare found)] at found
  obtain ⟨stop, read, same⟩ := Option.map_eq_some_iff.mp found
  obtain rfl : stop = [] := List.append_left_eq_self.mp same
  rw [dropName_local bare, read]
  rfl

/-- Where no brace opens ahead of a text and none ahead of another one, none opens where the other one follows. -/
theorem bracesAhead_seam {z : List Char} (none : bracesAhead (z ++ s) = false) (none' : bracesAhead s' = false)
    (first : s'.head? ≠ some '\x7b') : bracesAhead (z ++ s') = false := by
  induction z with
  | nil => exact none'
  | cons c z ih =>
    rw [List.cons_append, bracesAhead] at none ⊢
    by_cases stops : c = ';' ∨ c = '}'
    · rcases stops with rfl | rfl <;> rfl
    · simp only [not_or] at stops
      simp only [ne_eq, stops, Bool.and_eq_false_iff, Bool.or_eq_false_iff, bne_eq_false_iff_eq, false_or,
        beq_eq_false_iff_ne] at none ⊢
      obtain ⟨head, behind⟩ := none
      refine ⟨?_, ih behind⟩
      cases z with
      | nil => exact first
      | cons d z => exact head

theorem dropColon_lt (found : dropColon fuel cs = some rest) : rest.length < cs.length := by
  induction fuel generalizing cs with
  | zero => cases found
  | succ fuel ih =>
    have blanks := (takes_dropWhile Text.isPlainBlank cs).length_le
    unfold dropColon at found
    dsimp only at found
    split at found
    · cases found
    · split at found
      · rename_i behind comment
        have := dropComment_lt comment
        have := ih found
        omega
      · split at found
        · cases found
        · rename_i behind _ near
          cases found
          rw [near, List.length_cons] at blanks
          omega
        · cases found

theorem wideBlank_of_plain {c : Char} (blank : Text.isPlainBlank c = true) : isWideBlank c = true := by
  simp only [Text.isPlainBlank, isWideBlank, Bool.or_eq_true, Bool.and_eq_true, decide_eq_true_eq, beq_iff_eq] at *
  omega

/-- Behind blanks a descent begins where a simple selector does. -/
theorem dropDescent_isSome {blanks : List Char} {c : Char} (blank : ∀ b ∈ blanks, Text.isPlainBlank b = true)
    (solid : isWideBlank c = false) :
    (dropDescent (blanks ++ c :: rest)).isSome = (!blanks.isEmpty && beginsSimple (c :: rest)) := by
  unfold dropDescent
  rw [List.dropWhile_append_of_pos fun b member => wideBlank_of_plain (blank b member),
    List.dropWhile_cons_of_neg (by simp [solid])]
  cases blanks with
  | nil => simp [solid]
  | cons b blanks =>
    have wide := wideBlank_of_plain (blank b (by simp))
    cases simple : beginsSimple (c :: rest) <;> simp [wide, simple]

/-- Behind blanks no pseudo-class begins. -/
theorem beginsPseudoClass_blanks {blanks : List Char} (blank : ∀ b ∈ blanks, Text.isPlainBlank b = true) :
    beginsPseudoClass (blanks ++ rest) = (blanks.isEmpty && beginsPseudoClass rest) := by
  cases blanks with
  | nil => rfl
  | cons b blanks =>
    unfold beginsPseudoClass
    split
    · rename_i same
      obtain rfl : b = ':' := (List.cons.inj same).1
      exact absurd (blank ':' (by simp)) (by decide)
    · rfl

/-- The colon of a declaration is that of a declaration in front of another text, if the text does not make it one of
a selector. -/
theorem dropColon_seam {gap body body' : List Char} {fuel' : Nat}
    (found : dropColon fuel (gap ++ ':' :: body) = some body)
    (simple : beginsSimple (':' :: body) = false → beginsSimple (':' :: body') = false)
    (pseudo : beginsPseudoClass (':' :: body) = false → beginsPseudoClass (':' :: body') = false)
    (single : body'.head? ≠ some ':') (enough : gap.length < fuel') :
    dropColon fuel' (gap ++ ':' :: body') = some body' := by
  induction fuel generalizing fuel' gap with
  | zero => cases found
  | succ fuel ih =>
    obtain ⟨fuel', rfl⟩ : ∃ n, fuel' = n + 1 := ⟨fuel' - 1, by omega⟩
    obtain ⟨blanks, tail, rfl, blank, solid⟩ : ∃ blanks tail, gap = blanks ++ tail ∧
        (∀ b ∈ blanks, Text.isPlainBlank b = true) ∧ ∀ c ∈ tail.head?, Text.isPlainBlank c = false :=
      ⟨gap.takeWhile Text.isPlainBlank, gap.dropWhile Text.isPlainBlank, List.takeWhile_append_dropWhile.symm,
        fun b member => List.mem_takeWhile_imp member, fun c first => by
          have last := List.head?_dropWhile_not Text.isPlainBlank gap
          rw [first] at last
          exact last⟩
    have near (s : List Char) : (blanks ++ tail ++ ':' :: s).dropWhile Text.isPlainBlank = tail ++ ':' :: s := by
      rw [List.append_assoc, List.dropWhile_append_of_pos blank]
      cases tail with
      | nil => rfl
      | cons c tail => exact List.dropWhile_cons_of_neg (by simp [solid c rfl])
    unfold dropColon at found ⊢
    dsimp only at found ⊢
    rw [near] at found ⊢
    split at found
    · cases found
    · rename_i plain
      cases tail with
      | nil =>
        rw [List.append_nil, dropDescent_isSome blank (by decide), beginsPseudoClass_blanks blank] at plain ⊢
        rw [List.nil_append, dropComment_solid (by decide), if_neg]
        · dsimp only
          split
          · rename_i same
            rw [(List.cons.inj same).2] at single
            exact absurd rfl single
          · rename_i same
            rw [(List.cons.inj same).2]
          · rename_i other
            exact (other _ rfl).elim
        · -- With blanks in front the selector would go on behind them, without any a pseudo-class would begin.
          cases blanks with
          | nil => simpa using pseudo (by simpa using plain)
          | cons b blanks => simpa using simple (by simpa using plain)
      | cons c tail =>
        cases comment : dropComment .outside (c :: tail ++ ':' :: body) with
        | none =>
          -- The colon would be an earlier one.
          rw [comment] at found
          dsimp only at found
          split at found
          · cases found
          · rename_i near
            obtain ⟨-, same⟩ := List.cons.inj near
            have size := congrArg List.length (same.trans (Option.some.inj found))
            simp only [List.append_eq, List.length_append, List.length_cons] at size
            omega
          · cases found
        | some r =>
          rw [comment] at found
          have shorter := dropColon_lt found
          obtain ⟨y, within, rfl, comment'⟩ := @dropComment_seam (':' :: body) (':' :: body') tail .outside [] r c
            (fun _ => rfl) (by simp) (.inl rfl) comment shorter fun _ =>
              ⟨List.cons_ne_nil _ _, fun feed => by cases feed⟩
          have slash : c = '/' := by
            by_contra other
            rw [List.cons_append, dropComment_solid other] at comment
            cases comment
          subst slash
          have none : (['#', '.', '[', '-', '*', '&'].contains '/' || isAlphanumeric '/') = false := by decide
          have simple (s : List Char) : beginsSimple ('/' :: s) = false := none
          have := within.length_le
          simp only [List.length_append, List.length_cons] at enough
          rw [List.append_assoc, List.cons_append, dropDescent_isSome blank (by decide), simple,
            beginsPseudoClass_blanks blank, if_neg (by simp [beginsPseudoClass])]
          rw [List.cons_append] at comment'
          rw [comment']
          exact ih found (by omega)

/-- Two colons are those of a pseudo-element. -/
theorem dropColon_single (found : dropColon fuel cs = some rest) : rest.head? ≠ some ':' := by
  induction fuel generalizing cs with
  | zero => cases found
  | succ fuel ih =>
    unfold dropColon at found
    dsimp only at found
    split at found
    · cases found
    · split at found
      · exact ih found
      · split at found
        · cases found
        · rename_i behind other near
          cases found
          intro first
          obtain ⟨more, rfl⟩ := List.head?_eq_some_iff.mp first
          exact other _ rfl
        · cases found

/-- Right behind a name the colon of a declaration is told by what is ahead. -/
theorem dropColon_here (ahead : bracesAhead rest = false) (single : rest.head? ≠ some ':') (fuel : Nat) :
    dropColon (fuel + 1) (':' :: rest) = some rest := by
  have descent : (dropDescent (':' :: rest)).isSome = false := @dropDescent_isSome rest [] ':' (by simp) (by decide)
  have pseudo : beginsPseudoClass (':' :: rest) = false := by simp only [beginsPseudoClass, ahead, Bool.and_false]
  unfold dropColon
  dsimp only
  rw [List.dropWhile_cons_of_neg (by decide), descent, pseudo, dropComment_solid (by decide), if_neg (by simp)]
  dsimp only
  split
  · rename_i same
    rw [(List.cons.inj same).2] at single
    exact absurd rfl single
  · rename_i same
    rw [(List.cons.inj same).2]
  · rename_i other
    exact (other _ rfl).elim

/-- Texts that begin the same, and have no brace ahead either, have the same colon in front of them. -/
theorem colon_congr {body body' : List Char} (first : body'.head? = body.head?)
    (ahead : bracesAhead body = false → bracesAhead body' = false) :
    (beginsSimple (':' :: body) = false → beginsSimple (':' :: body') = false) ∧
      (beginsPseudoClass (':' :: body) = false → beginsPseudoClass (':' :: body') = false) := by
  simp only [beginsSimple, beginsPseudoClass, first, Bool.and_eq_false_iff, Bool.or_eq_false_iff]
  exact ⟨fun plain => plain.imp_right fun both => ⟨both.1, ahead both.2⟩, fun plain => plain.imp_right ahead⟩

/-- Blanks in front hide no brace. -/
theorem bracesAhead_blanks {blanks : List Char} (blank : ∀ b ∈ blanks, Text.isPlainBlank b = true)
    (none : bracesAhead rest = false) (first : rest.head? ≠ some '\x7b') :
    bracesAhead (blanks ++ rest) = false ∧ (blanks ++ rest).head? ≠ some '\x7b' := by
  induction blanks with
  | nil => exact ⟨none, first⟩
  | cons b blanks ih =>
    obtain ⟨ahead, head⟩ := ih fun c member => blank c (List.mem_cons_of_mem _ member)
    refine ⟨?_, ?_⟩
    · rw [List.cons_append, bracesAhead, ahead, beq_eq_false_iff_ne.mpr head, Bool.or_self, Bool.and_false]
    · rintro ⟨⟩
      exact absurd (blank '\x7b' (by simp)) (by decide)

/-! ### A declaration in a block -/

/-- What stands behind the colon of a declaration in a block: its value, its mark of importance, and `last`. -/
structure BodyReads (body value mark last : List Char) (ended : Bool) : Prop where
  split : body = value ++ mark ++ last
  read : ∃ stop found, declared none (dropGap .value body) = some (stop, found) ∧ found.getD last = mark ++ last ∧
    if ended then dropGap .series stop = last ∧ last.head? = some ';'
    else stop = last ∧ (dropGap .series stop).head? = some '}'

theorem dropColon_split (found : dropColon fuel cs = some rest) : ∃ gap, cs = gap ++ ':' :: rest := by
  induction fuel generalizing cs with
  | zero => cases found
  | succ fuel ih =>
    obtain ⟨blanks, whole, -⟩ := takes_dropWhile Text.isPlainBlank cs
    unfold dropColon at found
    dsimp only at found
    split at found
    · cases found
    · split at found
      · rename_i behind comment
        obtain ⟨gap, rfl⟩ := ih found
        obtain ⟨part, near, -⟩ := takes_dropComment taking_all comment
        exact ⟨blanks ++ part ++ gap, by rw [whole, near]; simp⟩
      · split at found
        · cases found
        · rename_i behind _ near
          cases found
          exact ⟨blanks, by rw [whole, near]⟩
        · cases found

/-- The parts of what stands behind a colon: the mark of importance begins in front of where the reader stops. -/
theorem body_split {body stop last : List Char} {found : Option (List Char)}
    (read : declared none (dropGap .value body) = some (stop, found)) (behind : last <:+ stop) :
    ∃ value mark, body = value ++ mark ++ last ∧ found.getD last = mark ++ last := by
  have gap := (takes_dropGap taking_all .value body).suffix
  cases found with
  | none =>
    obtain ⟨value, same⟩ := behind.trans ((declared_suffix read).trans gap)
    exact ⟨value, [], by simp [same], rfl⟩
  | some m =>
    obtain ⟨within, -, again⟩ := declared_from_mark read (by simp)
    obtain ⟨value, same⟩ := within.trans gap
    obtain ⟨mark, same'⟩ := behind.trans (declared_suffix (again none))
    exact ⟨value, mark, by rw [← same, ← same', List.append_assoc], same'.symm⟩

/-- Behind its colon a declaration in a block is cut where its values stop. -/
theorem readDeclaration_eq {name gap body : List Char} (named : dropName cs = some (gap ++ ':' :: body))
    (split : cs = name ++ (gap ++ ':' :: body))
    (colon : dropColon ((gap ++ ':' :: body).length + 1) (gap ++ ':' :: body) = some body) :
    readDeclaration true cs = (declared none (dropGap .value body)).bind fun found =>
      let isOpen := (dropGap .series found.1).head? = some '}'
      let last := if isOpen then found.1 else dropGap .series found.1
      let whole := before body last
      let parts := cut whole (whole.drop (body.length - (found.2.getD last).length))
      if isOpen then some (⟨name, gap, parts.1, parts.2, false⟩, last)
      else
        match last with
        | ';' :: rest => some (⟨name, gap, parts.1, parts.2, true⟩, rest)
        | _ => none := by
  have parted : (gap ++ ':' :: body).splitAt ((gap ++ ':' :: body).length - body.length - 1) = (gap, ':' :: body) := by
    have place : (gap ++ ':' :: body).length - body.length - 1 = gap.length := by
      simp only [List.length_append, List.length_cons]
      omega
    rw [place, List.splitAt_eq, List.take_left, List.drop_left]
  unfold readDeclaration
  rw [named]
  dsimp only
  rw [split, cut_of_append]
  dsimp only
  rw [colon]
  dsimp only
  rw [parted]
  dsimp only
  split
  · rename_i behind same
    obtain rfl : body = behind := (List.cons.inj same).2
    rw [dropDeclared_eq (Nat.lt_succ_of_le (takes_dropGap taking_all .value body).length_le)]
    cases read : declared none (dropGap .value body) with
    | none => rfl
    | some found =>
      obtain ⟨stop, mark⟩ := found
      have within : (if (dropGap .series stop).head? = some '}' then stop else dropGap .series stop) <:+ body := by
        refine List.IsSuffix.trans ?_ ((declared_suffix read).trans (takes_dropGap taking_all .value body).suffix)
        split
        · exact List.suffix_refl stop
        · exact (takes_dropGap taking_all .series stop).suffix
      obtain ⟨whole, same'⟩ := within
      simp only [Bool.true_and, decide_eq_true_eq, Option.bind_some, before]
      have parts := cut_of_append whole (if (dropGap .series stop).head? = some '}' then stop else dropGap .series stop)
      rw [same'] at parts
      exact parts ▸ rfl
  · rename_i other
    exact (other _ rfl).elim

theorem readDeclaration_iff {d : DeclarationItem} : readDeclaration true cs = some (d, rest) ↔
    ∃ body last, dropName cs = some (d.gap ++ ':' :: body) ∧ cs = d.name ++ (d.gap ++ ':' :: body) ∧
      dropColon ((d.gap ++ ':' :: body).length + 1) (d.gap ++ ':' :: body) = some body ∧
      BodyReads body d.value d.mark last d.ended ∧ last = (if d.ended then [';'] else []) ++ rest := by
  -- Where the values stop at `last`, the value and the mark in front of it are the parts that were cut.
  have parts {value mark last : List Char} {found : Option (List Char)} (marked : found.getD last = mark ++ last) :
      cut (before (value ++ mark ++ last) last) ((before (value ++ mark ++ last) last).drop
        ((value ++ mark ++ last).length - (found.getD last).length)) = (value, mark) := by
    have place : (value ++ mark ++ last).length - (mark ++ last).length = value.length := by
      simp only [List.length_append]
      omega
    rw [before_append, marked, place, List.drop_left, cut_of_append]
  constructor
  · intro read
    have opened := read
    unfold readDeclaration at opened
    cases named : dropName cs with
    | none =>
      rw [named] at opened
      cases opened
    | some behind =>
      rw [named] at opened
      dsimp only at opened
      obtain ⟨name, split⟩ := (takes_dropName taking_all named).suffix
      rw [← split, cut_of_append] at opened
      dsimp only at opened
      cases colon : dropColon (behind.length + 1) behind with
      | none =>
        rw [colon] at opened
        cases opened
      | some body =>
        obtain ⟨gap, rfl⟩ := dropColon_split colon
        rw [readDeclaration_eq named split.symm colon] at read
        obtain ⟨⟨stop, found⟩, values, read⟩ := Option.bind_eq_some_iff.mp read
        dsimp only at read
        by_cases closing : (dropGap .series stop).head? = some '}'
        · simp only [if_pos closing] at read
          obtain ⟨value, mark, whole, marked⟩ := body_split values (List.suffix_refl stop)
          rw [whole, parts marked] at read
          cases read
          exact ⟨body, rest, rfl, split.symm, colon, ⟨whole, rest, found, values, marked, rfl, closing⟩, rfl⟩
        · simp only [if_neg closing] at read
          obtain ⟨value, mark, whole, marked⟩ := body_split values (takes_dropGap taking_all .series stop).suffix
          rw [whole, parts marked] at read
          cases ends : dropGap .series stop with
          | nil =>
            rw [ends] at read
            cases read
          | cons c last =>
            by_cases semicolon : c = ';'
            · subst semicolon
              rw [ends] at read whole marked
              cases read
              exact ⟨body, _, rfl, split.symm, colon, ⟨whole, stop, found, values, marked, ends, rfl⟩, rfl⟩
            · rw [ends] at read
              split at read
              · rename_i same
                exact absurd (List.cons.inj same).1 semicolon
              · cases read
  · obtain ⟨name, gap, value, mark, ended⟩ := d
    rintro ⟨body, last, named, split, colon, ⟨whole, stop, found, values, marked, ends⟩, last'⟩
    dsimp only at named split colon whole marked ends last'
    rw [readDeclaration_eq named split colon, values, Option.bind_some]
    cases ended with
    | false =>
      obtain ⟨rfl, closing⟩ := ends
      obtain rfl : stop = rest := last'
      simp only [if_pos closing]
      rw [whole, parts marked]
    | true =>
      obtain ⟨ends, -⟩ := ends
      obtain rfl : last = ';' :: rest := last'
      have closing : (dropGap .series stop).head? ≠ some '}' := by
        rw [ends]
        rintro ⟨⟩
      simp only [if_neg closing]
      rw [ends, whole, parts marked]
      rfl

end Retouch.Sheet
