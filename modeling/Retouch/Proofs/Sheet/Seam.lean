import Retouch.Proofs.Sheet.Edge

/-!
# Values in front of other texts

A value is read to its end whatever stands behind it, as long as its comments are closed in it and no value goes on with
what stands behind.

## Main statements

* `seamAt`: values that are read in front of one such text are read in front of any other.
* `dropValue_seam`: so are values with their operators.

## Proof strategy

The readers of values call each other with a bound on the depth, so all of them are followed together, by induction on
the bound. Of the second text the bound may be another one, as long as it is above the number of characters that are
left; each reader takes a character before it comes back to itself, which is what the numbers in `SeamAt` count.
-/
namespace Retouch.Sheet

variable {s core s' core' cs rest : List Char}

/-! ### Every value takes some of the text -/

theorem dropName_lt (found : dropName cs = some rest) : rest.length < cs.length := by
  have tail (cs : List Char) : (cs.dropWhile isNameChar).length ≤ cs.length := (takes_dropWhile isNameChar cs).length_le
  unfold dropName at found
  split at found
  · rename_i behind
    cases found
    have := tail behind
    simp only [List.length_cons]
    omega
  · rename_i c behind _
    split at found
    · cases found
      have := tail behind
      simp only [List.length_cons]
      omega
    · cases found
  · rename_i c behind _ _
    split at found
    · cases found
      have := tail behind
      simp only [List.length_cons]
      omega
    · cases found
  · cases found

theorem dropWord_lt (found : dropWord cs = some rest) : rest.length < cs.length := by
  have lead := (takes_dropWordLead taking_all cs).length_le
  unfold dropWord at found
  split at found
  · rename_i c behind split
    rw [split, List.length_cons] at lead
    split at found
    · cases found
      have body := (takes_dropWordBody taking_all behind).length_le
      omega
    · cases found
  · cases found

theorem fraction_lt (found : fraction cs = some rest) : rest.length < cs.length := by
  unfold fraction at found
  split at found
  · rename_i d behind
    split at found
    · cases found
      have := (takes_dropWhile Char.isDigit behind).length_le
      simp only [List.length_cons]
      omega
    · cases found
  · cases found

theorem exponent_lt (found : exponent cs = some rest) : rest.length < cs.length := by
  unfold exponent at found
  split at found
  · rename_i d behind
    split at found
    · cases found
      have := (takes_dropWhile Char.isDigit behind).length_le
      simp only [List.length_cons]
      omega
    · cases found
  · rename_i d behind _
    split at found
    · cases found
      have := (takes_dropWhile Char.isDigit behind).length_le
      simp only [List.length_cons]
      omega
    · cases found
  · cases found

theorem dropDigits_lt (found : dropDigits cs = some rest) : rest.length < cs.length := by
  rw [dropDigits_eq] at found
  dsimp only at found
  have digits := (takes_dropWhile Char.isDigit cs).length_le
  generalize whole : cs.dropWhile Char.isDigit = behind at found digits
  have pointed : ((fraction behind).getD behind).length ≤ behind.length := by
    cases found : fraction behind with
    | none => exact Nat.le_refl _
    | some last => exact Nat.le_of_lt (fraction_lt found)
  have raised (last : List Char) : ((exponent last).getD last).length ≤ last.length := by
    cases found : exponent last with
    | none => exact Nat.le_refl _
    | some stop => exact Nat.le_of_lt (exponent_lt found)
  have raised := raised ((fraction behind).getD behind)
  split at found
  · rename_i some_
    cases found
    simp only [Bool.or_eq_true] at some_
    rcases some_ with (first | point) | power
    · have shorter : behind.length < cs.length := by
        cases cs with
        | nil => cases first
        | cons c cs =>
          rw [← whole, List.dropWhile_cons_of_pos (by simpa using first)]
          exact Nat.lt_succ_of_le (takes_dropWhile Char.isDigit cs).length_le
      omega
    · obtain ⟨last, found⟩ := Option.isSome_iff_exists.mp point
      have := fraction_lt found
      rw [found, Option.getD_some] at raised pointed ⊢
      omega
    · obtain ⟨last, found⟩ := Option.isSome_iff_exists.mp power
      have := exponent_lt found
      rw [found, Option.getD_some] at raised ⊢
      omega
  · cases found

theorem dropNumber_lt (found : dropNumber cs = some rest) : rest.length < cs.length := by
  unfold dropNumber at found
  split at found
  · exact Nat.lt_succ_of_lt (dropDigits_lt found)
  · exact Nat.lt_succ_of_lt (dropDigits_lt found)
  · exact dropDigits_lt found

theorem dropAtom_lt {atom : Atom} (found : dropAtom cs = some (atom, rest)) : rest.length < cs.length := by
  have kept {best : Option (Atom × List Char)} {kind : Atom} {next : Option (List Char)}
      (held : ∀ found ∈ best, found.2.length < cs.length) (read : ∀ rest ∈ next, rest.length < cs.length) :
      ∀ found ∈ longer best kind next, found.2.length < cs.length := by
    intro found chosen
    unfold longer at chosen
    split at chosen
    · split at chosen
      · cases chosen
        exact read _ rfl
      · exact held _ chosen
    · cases chosen
      exact read _ rfl
    · exact held _ chosen
  rw [dropAtom_eq] at found
  exact kept (kept (kept (by simp) fun _ => dropNumber_lt) fun _ => dropName_lt) (fun _ => dropWord_lt) _ found

theorem dropPrimary_lt {behind : Spot} {fuel : Nat} (found : dropPrimary behind fuel cs = some rest) :
    rest.length < cs.length := by
  cases fuel with
  | zero => cases found
  | succ fuel =>
    have values := valuesTake taking_all fuel
    have gap (spot : Spot) (cs : List Char) := (takes_dropGap taking_all spot cs).length_le
    unfold dropPrimary at found
    split at found
    · rename_i number atom
      cases found
      exact Nat.lt_of_le_of_lt (takes_dropUnit taking_all behind number).length_le (dropAtom_lt atom)
    · rename_i word atom
      cases found
      exact dropAtom_lt atom
    · rename_i name atom
      refine Nat.lt_of_le_of_lt ?_ (dropAtom_lt atom)
      split at found
      · rename_i inner joint
        have near := (takes_dropJoint taking_all behind name).length_le
        rw [joint, List.length_cons] at near
        have := (values.arguments found).length_lt
        have := gap .value inner
        omega
      · cases found
        exact Nat.le_refl _
    · split at found
      · rename_i digits _
        have := (takes_dropColorCode taking_all found).length_le
        have := (takes_dropJoint taking_all .outside digits).length_le
        rw [List.length_cons]
        omega
      · rename_i inner _
        have := (values.list found).length_lt
        have := gap .value inner
        rw [List.length_cons]
        omega
      · rename_i inner _
        obtain ⟨stop, chained, closed⟩ := Option.bind_eq_some_iff.mp found
        have := (values.chain chained).length_le
        have := gap .value inner
        have := gap .single stop
        split at closed
        · rename_i closing
          cases closed
          rw [closing, List.length_cons] at this
          rw [List.length_cons]
          omega
        · cases closed
      · split at found
        · rename_i important
          cases found
          obtain ⟨behind, rfl⟩ := List.isPrefixOf_iff_prefix.mp important
          simp only [List.length_append, List.drop_left]
          have : 0 < importance.length := by decide
          omega
        · exact dropString_lt found

theorem dropChain_lt {behind : Spot} {fuel : Nat} (found : dropChain behind fuel cs = some rest) :
    rest.length < cs.length := by
  cases fuel with
  | zero => cases found
  | succ fuel =>
    unfold dropChain at found
    obtain ⟨stop, first, found⟩ := Option.bind_eq_some_iff.mp found
    refine Nat.lt_of_le_of_lt ?_ (dropPrimary_lt first)
    have gap := (takes_dropGap taking_all behind stop).length_le
    split at found
    · rename_i c more split
      rw [split, List.length_cons] at gap
      split at found
      · have := ((valuesTake taking_all fuel).chain found).length_le
        have := (takes_dropGap taking_all .value more).length_le
        omega
      · cases found
        exact Nat.le_refl _
    · cases found
      exact Nat.le_refl _

/-! ### The cases of a value -/

section Primary

variable {behind : Spot} {kind : Atom} {c : Char} {inner : List Char}

theorem dropPrimary_number (fuel : Nat) (atom : dropAtom cs = some (.number, rest)) :
    dropPrimary behind (fuel + 1) cs = some (dropUnit behind rest) := by
  unfold dropPrimary
  rw [atom]

theorem dropPrimary_word (fuel : Nat) (atom : dropAtom cs = some (.word, rest)) :
    dropPrimary behind (fuel + 1) cs = some rest := by
  unfold dropPrimary
  rw [atom]

theorem dropPrimary_call (fuel : Nat) (atom : dropAtom cs = some (.name, rest))
    (joint : dropJoint behind rest = '(' :: inner) :
    dropPrimary behind (fuel + 1) cs = dropArguments fuel (dropGap .value inner) := by
  unfold dropPrimary
  rw [atom]
  dsimp only
  rw [joint]
  rfl

theorem dropPrimary_name (fuel : Nat) (atom : dropAtom cs = some (.name, rest))
    (joint : (dropJoint behind rest).head? ≠ some '(') : dropPrimary behind (fuel + 1) cs = some rest := by
  unfold dropPrimary
  rw [atom]
  dsimp only
  split
  · rename_i same
    exact absurd (congrArg List.head? same) joint
  · rfl

theorem dropPrimary_color (fuel : Nat) (atom : dropAtom ('#' :: rest) = none) :
    dropPrimary behind (fuel + 1) ('#' :: rest) = dropColorCode (dropJoint .outside rest) := by
  unfold dropPrimary
  rw [atom]
  rfl

theorem dropPrimary_list (fuel : Nat) (atom : dropAtom ('[' :: rest) = none) :
    dropPrimary behind (fuel + 1) ('[' :: rest) = dropList fuel (dropGap .value rest) := by
  unfold dropPrimary
  rw [atom]
  rfl

theorem dropPrimary_group {stop : List Char} (fuel : Nat) (atom : dropAtom ('(' :: inner) = none) :
    dropPrimary behind (fuel + 1) ('(' :: inner) = some stop ↔
      ∃ last, dropChain .single fuel (dropGap .value inner) = some last ∧ dropGap .single last = ')' :: stop := by
  unfold dropPrimary
  rw [atom]
  change (dropChain .single fuel (dropGap .value inner)).bind _ = some stop ↔ _
  rw [Option.bind_eq_some_iff]
  refine exists_congr fun last => and_congr_right fun _ => ?_
  constructor
  · intro found
    split at found
    · cases found
      assumption
    · cases found
  · intro closing
    rw [closing]
    rfl

theorem dropPrimary_other (fuel : Nat) (atom : dropAtom (c :: rest) = none)
    (other : c ≠ '#' ∧ c ≠ '[' ∧ c ≠ '(') : dropPrimary behind (fuel + 1) (c :: rest) =
      if importance.isPrefixOf (c :: rest) then some ((c :: rest).drop importance.length)
      else dropString (c :: rest) := by
  unfold dropPrimary
  rw [atom]
  dsimp only
  split
  · rename_i same
    exact absurd (List.cons.inj same).1 other.1
  · rename_i same
    exact absurd (List.cons.inj same).1 other.2.1
  · rename_i same
    exact absurd (List.cons.inj same).1 other.2.2
  · rfl

/-- No value begins with a blank or a mark, apart from that of importance. -/
theorem dropPrimary_quiet (fuel : Nat) (quiet : c ∈ quietChars) (other : c ≠ '!') :
    dropPrimary behind fuel (c :: rest) = none := by
  cases fuel with
  | zero => rfl
  | succ fuel =>
    have begins : Quiet (c :: rest) := by
      intro d first
      cases first
      exact quiet
    have atom : dropAtom (c :: rest) = none := dropAtom_seam begins []
    have marks := List.all_eq_true.mp
      (by decide : quietChars.all (fun c => !(c = '#' || c = '[' || c = '(' || isQuote c)) = true) c quiet
    simp only [Bool.not_eq_true', Bool.or_eq_false_iff, decide_eq_false_iff_not] at marks
    rw [dropPrimary_other fuel atom ⟨marks.1.1.1, marks.1.1.2, marks.1.2⟩, if_neg, dropString, marks.2]
    · rfl
    · intro front
      obtain ⟨t, same⟩ := List.isPrefixOf_iff_prefix.mp front
      exact other (List.cons.inj same).1.symm

end Primary

/-! ### The steps of the readers -/

section Steps

variable {behind : Spot} {fuel : Nat} {stop : List Char}

/-- Behind a value an operator goes on with another one. -/
theorem dropChain_succ : dropChain behind (fuel + 1) cs = some stop ↔
    ∃ first, dropPrimary behind fuel cs = some first ∧
      ((∃ c more, dropGap behind first = c :: more ∧ isOperator c = true ∧ (dropNext behind (c :: more)).isNone = true ∧
          dropChain behind fuel (dropGap .value more) = some stop) ∨
        (∀ c more, dropGap behind first = c :: more → isOperator c = true →
          (dropNext behind (c :: more)).isNone = false) ∧
          first = stop) := by
  conv => lhs; unfold dropChain
  rw [Option.bind_eq_some_iff]
  refine exists_congr fun first => and_congr_right fun _ => ?_
  rcases gap : dropGap behind first with _ | ⟨c, more⟩
  · simp
  · dsimp only
    by_cases operator : (isOperator c && (dropNext behind (c :: more)).isNone) = true
    · rw [if_pos operator]
      simp only [Bool.and_eq_true] at operator
      constructor
      · exact fun found => .inl ⟨c, more, rfl, operator.1, operator.2, found⟩
      · rintro (⟨_, _, ⟨⟩, -, -, found⟩ | ⟨none, -⟩)
        · exact found
        · have := none c more rfl operator.1
          rw [operator.2] at this
          cases this
    · rw [if_neg operator]
      simp only [Bool.and_eq_true] at operator
      constructor
      · intro found
        refine .inr ⟨?_, Option.some.inj found⟩
        rintro _ _ ⟨⟩ is
        exact Bool.eq_false_iff.mpr fun next => operator ⟨is, next⟩
      · rintro (⟨_, _, ⟨⟩, is, next, -⟩ | ⟨-, rfl⟩)
        · exact absurd ⟨is, next⟩ operator
        · rfl

/-- Behind the values of a group of arguments another group follows, or the closing parenthesis. -/
theorem dropGroups_succ : dropGroups (fuel + 1) cs = some stop ↔
    ∃ first c more, dropSeries fuel cs = some first ∧ dropGap .series first = c :: more ∧
      (c = ')' ∧ more = stop ∨ (c = ',' ∨ c = ';') ∧ dropGroups fuel (dropGap .value more) = some stop) := by
  conv => lhs; unfold dropGroups
  rw [Option.bind_eq_some_iff]
  constructor
  · rintro ⟨first, series, found⟩
    split at found
    · rename_i rest gap
      cases found
      exact ⟨first, _, _, series, gap, .inl ⟨rfl, rfl⟩⟩
    · rename_i c rest _ gap
      split at found
      · rename_i mark
        exact ⟨first, _, _, series, gap, .inr ⟨by simpa using mark, found⟩⟩
      · cases found
    · cases found
  · rintro ⟨first, c, more, series, gap, ⟨rfl, rfl⟩ | ⟨mark, found⟩⟩
    · exact ⟨first, series, by rw [gap]; rfl⟩
    · refine ⟨first, series, ?_⟩
      rw [gap]
      rcases mark with rfl | rfl <;> exact found

/-- Behind a value of a bracketed list another one follows, or the closing bracket. -/
theorem dropList_succ : dropList (fuel + 1) cs = some stop ↔
    ∃ first c more, dropChain .single fuel cs = some first ∧ dropGap .single first = c :: more ∧
      (c = ']' ∧ more = stop ∨ c = ',' ∧ dropList fuel (dropGap .value more) = some stop) := by
  conv => lhs; unfold dropList
  rw [Option.bind_eq_some_iff]
  constructor
  · rintro ⟨first, chain, found⟩
    split at found
    · rename_i rest gap
      cases found
      exact ⟨first, _, _, chain, gap, .inl ⟨rfl, rfl⟩⟩
    · rename_i rest gap
      exact ⟨first, _, _, chain, gap, .inr ⟨rfl, found⟩⟩
    · cases found
  · rintro ⟨first, c, more, chain, gap, ⟨rfl, rfl⟩ | ⟨rfl, found⟩⟩
    · exact ⟨first, chain, by rw [gap]; rfl⟩
    · exact ⟨first, chain, by rw [gap]; exact found⟩

theorem dropArguments_succ : dropArguments (fuel + 1) cs = some stop ↔
    (∃ rest, cs = ')' :: rest ∧ rest = stop) ∨ cs.head? ≠ some ')' ∧ dropGroups fuel cs = some stop := by
  conv => lhs; unfold dropArguments
  constructor
  · intro found
    split at found
    · exact .inl ⟨_, rfl, Option.some.inj found⟩
    · rename_i other
      refine .inr ⟨fun closing => ?_, found⟩
      obtain ⟨rest, same⟩ := List.head?_eq_some_iff.mp closing
      exact other _ same
  · rintro (⟨rest, rfl, rfl⟩ | ⟨other, groups⟩)
    · rfl
    · split
      · exact absurd rfl other
      · exact groups

theorem dropSeries_succ : dropSeries (fuel + 1) cs = some stop ↔
    ∃ first, dropChain .series fuel cs = some first ∧ (dropSeries fuel (dropGap .series first)).getD first = stop := by
  rw [dropSeries, Option.map_eq_some_iff]

theorem dropSeries_lt (found : dropSeries fuel cs = some stop) : stop.length < cs.length := by
  induction fuel generalizing cs stop with
  | zero => cases found
  | succ fuel ih =>
    obtain ⟨first, chain, rfl⟩ := dropSeries_succ.mp found
    have shorter := dropChain_lt chain
    cases more : dropSeries fuel (dropGap .series first) with
    | none => exact shorter
    | some last =>
      have := ih more
      have := (takes_dropGap taking_all .series first).length_le
      rw [Option.getD_some]
      omega

end Steps

/-! ### What is read in front of the seam -/

/-- What ends a series of values in the arguments of a function. -/
def isHalt (c : Char) : Bool := c = ')' || c = ',' || c = ';'

/-- No value begins with what ends a series. -/
theorem dropSeries_halt {c : Char} (halt : isHalt c = true) (fuel : Nat) : dropSeries fuel (c :: rest) = none := by
  have quiet : c ∈ quietChars ∧ c ≠ '!' := by
    simp only [isHalt, Bool.or_eq_true, decide_eq_true_eq, or_assoc] at halt
    rcases halt with rfl | rfl | rfl <;> decide
  rcases fuel with _ | _ | fuel
  · rfl
  · rfl
  · rw [dropSeries, dropChain, dropPrimary_quiet _ quiet.1 quiet.2]
    rfl

/-- A rest that is not shorter than the text behind the seam begins in front of it. -/
theorem Takes.seam {taken : List Char → Prop} {x r : List Char} (takes : Takes taken (x ++ s) r)
    (long : s.length ≤ r.length) : ∃ y, r = y ++ s ∧ y <:+ x := by
  obtain ⟨part, whole, -⟩ := takes
  rcases List.append_eq_append_iff.mp whole with ⟨a, rfl, rfl⟩ | ⟨a, rfl, rfl⟩
  · simp only [List.length_append] at long
    obtain rfl : a = [] := List.length_eq_zero_iff.mp (by omega)
    exact ⟨[], rfl, List.nil_suffix⟩
  · exact ⟨a, rfl, List.suffix_append part a⟩

/-- What is read of a text in front of `s` is read in front of `s'`, with bounds for each reader. -/
structure SeamAt (s s' : List Char) (fuel : Nat) : Prop where
  primary {behind : Spot} {fuel' : Nat} {x y : List Char} (shut : Shut s' x) (enough : 8 * x.length + 1 ≤ fuel')
    (stops : Within s behind y) (found : dropPrimary behind fuel (x ++ s) = some (y ++ s)) :
    dropPrimary behind fuel' (x ++ s') = some (y ++ s')
  chain {behind : Spot} {fuel' : Nat} {x y : List Char} (shut : Shut s' x) (enough : 8 * x.length + 2 ≤ fuel')
    (stops : Within s behind y) (found : dropChain behind fuel (x ++ s) = some (y ++ s)) :
    dropChain behind fuel' (x ++ s') = some (y ++ s')
  series {fuel' : Nat} {x y last : List Char} {c : Char} (shut : Shut s' x) (enough : 8 * x.length + 3 ≤ fuel')
    (halt : isHalt c = true) (stops : dropGap .series (y ++ s) = c :: last) (long : s.length ≤ last.length)
    (found : dropSeries fuel (x ++ s) = some (y ++ s)) : dropSeries fuel' (x ++ s') = some (y ++ s')
  list {fuel' : Nat} {x y : List Char} (shut : Shut s' x) (enough : 8 * x.length + 3 ≤ fuel')
    (found : dropList fuel (x ++ s) = some (y ++ s)) : dropList fuel' (x ++ s') = some (y ++ s')
  groups {fuel' : Nat} {x y : List Char} (shut : Shut s' x) (enough : 8 * x.length + 4 ≤ fuel')
    (found : dropGroups fuel (x ++ s) = some (y ++ s)) : dropGroups fuel' (x ++ s') = some (y ++ s')
  arguments {fuel' : Nat} {x y : List Char} (shut : Shut s' x) (enough : 8 * x.length + 5 ≤ fuel')
    (found : dropArguments fuel (x ++ s) = some (y ++ s)) : dropArguments fuel' (x ++ s') = some (y ++ s')

section Edges

variable (edge : Edge s core) (edge' : Edge s' core')

include edge edge'

/-- A gap behind which something is read ends in front of the seam. -/
theorem dropGap_before (spot : Spot) {z r : List Char} (shut : Shut s' z) (gap : dropGap spot (z ++ s) = r)
    (long : s.length < r.length) : ∃ w, w <:+ z ∧ r = w ++ s ∧ dropGap spot (z ++ s') = w ++ s' := by
  subst gap
  obtain ⟨w, same, suffix⟩ := (takes_dropGap taking_all spot (z ++ s)).seam (Nat.le_of_lt long)
  cases w with
  | nil =>
    rw [same, List.nil_append] at long
    omega
  | cons c w => exact ⟨c :: w, suffix, same, dropGap_inside edge edge' shut same⟩

/-- So does one in front of a mark. -/
theorem dropGap_mark {spot : Spot} {c : Char} {z r : List Char} (shut : Shut s' z)
    (gap : dropGap spot (z ++ s) = c :: r) (long : s.length ≤ r.length) :
    ∃ w, c :: w <:+ z ∧ r = w ++ s ∧ dropGap spot (z ++ s') = c :: w ++ s' := by
  obtain ⟨w, suffix, same, gap'⟩ := dropGap_before edge edge' spot shut gap (Nat.lt_succ_of_le long)
  cases w with
  | nil =>
    have := congrArg List.length same
    simp only [List.length_cons, List.nil_append] at this
    omega
  | cons d w =>
    obtain ⟨rfl, rest⟩ := List.cons.inj same
    exact ⟨w, suffix, rest, gap'⟩

/-- The digits of a color code stand in front of the seam, and so does what is between the mark and them. -/
theorem dropColorCode_joint {z y : List Char} (shut : Shut s' z)
    (found : dropColorCode (dropJoint .outside (z ++ s)) = some (y ++ s)) :
    dropColorCode (dropJoint .outside (z ++ s')) = some (y ++ s') := by
  have size := (takes_dropColorCode taking_all found).length_le
  obtain ⟨w, same, suffix⟩ := (takes_dropJoint taking_all .outside (z ++ s)).seam
    (Nat.le_trans (by simp only [List.length_append]; omega) size)
  rw [same, dropColorCode_seam edge.quiet] at found
  obtain ⟨y', digits, same'⟩ := Option.map_eq_some_iff.mp found
  obtain rfl := List.append_cancel_right same'
  -- The first digit begins no gap.
  obtain ⟨c, v, rfl, solid⟩ : ∃ c v, w = c :: v ∧ beginsGap c = false := by
    cases w with
    | nil => cases digits
    | cons c v =>
      refine ⟨c, v, rfl, ?_⟩
      by_contra begins
      simp only [beginsGap, Bool.not_eq_false, Bool.or_eq_true, decide_eq_true_eq] at begins
      have mark : c ∈ jointChars := by
        rcases begins with blank | rfl
        · exact List.mem_cons_of_mem _ (plainBlank_mem blank)
        · exact List.mem_cons_self
      have other : isHexDigit c = false := by
        simpa using List.all_eq_true.mp (by decide : jointChars.all (fun c => !isHexDigit c) = true) c mark
      simp [dropColorCode, other] at digits
  have joint : dropJoint .outside (z ++ s') = c :: v ++ s' := by
    unfold dropJoint at same ⊢
    split at same
    · rename_i begins
      have gap := dropGap_inside edge edge' shut same
      obtain ⟨before, rfl⟩ := suffix
      have gaps := @gapOf_eq .outside _ _ before same (by simp)
      have gaps' := @gapOf_eq .outside _ _ before gap (by simp)
      have joins (s : List Char) : (before ++ c :: v ++ s).head? = (before ++ c :: v).head? := by
        cases before <;> rfl
      rw [gaps, joins] at begins
      rw [gaps', joins, if_pos begins, gap]
    · obtain rfl := List.append_cancel_right same
      rw [if_neg (by simp [solid])]
  rw [joint, dropColorCode_seam edge'.quiet, digits]
  rfl

/-- The mark of importance and a string stand in front of the seam. -/
theorem dropQuoted_seam {c : Char} {z y : List Char} (shut : Shut s' (c :: z))
    (found : (if importance.isPrefixOf (c :: z ++ s) then some ((c :: z ++ s).drop importance.length)
      else dropString (c :: z ++ s)) = some (y ++ s)) :
    (if importance.isPrefixOf (c :: z ++ s') then some ((c :: z ++ s').drop importance.length)
      else dropString (c :: z ++ s')) = some (y ++ s') := by
  split at found
  · rename_i important
    obtain ⟨behind, whole⟩ := List.isPrefixOf_iff_prefix.mp important
    rw [← whole, List.drop_left] at found
    obtain rfl := Option.some.inj found
    rw [← List.append_assoc] at whole
    rw [← List.append_cancel_right whole, List.append_assoc, List.drop_left, if_pos]
    exact List.isPrefixOf_iff_prefix.mpr (List.prefix_append _ _)
  · rw [if_neg, dropString_seam edge edge' shut found]
    -- What begins with a quote begins with no exclamation mark.
    intro important
    obtain ⟨behind, whole⟩ := List.isPrefixOf_iff_prefix.mp important
    obtain rfl : '!' = c := (List.cons.inj whole).1
    cases found

section Step

variable {fuel fuel' : Nat} (ih : SeamAt s s' fuel) {behind : Spot} {x y : List Char}

include ih

/-- A value that begins with a number, a name or a word. -/
theorem dropPrimary_atom_seam {kind : Atom} {r : List Char} (shut : Shut s' x) (enough : 8 * x.length ≤ fuel')
    (stops : Within s behind y) (atom : dropAtom x = some (kind, r))
    (found : dropPrimary behind (fuel + 1) (x ++ s) = some (y ++ s)) :
    dropPrimary behind (fuel' + 1) (x ++ s') = some (y ++ s') := by
  have atoms : dropAtom (x ++ s) = some (kind, r ++ s) := by
    rw [dropAtom_seam edge.quiet, atom]
    rfl
  have atoms' : dropAtom (x ++ s') = some (kind, r ++ s') := by
    rw [dropAtom_seam edge'.quiet, atom]
    rfl
  have shorter := dropAtom_lt atom
  have within : Shut s' r := by
    obtain ⟨part, rfl, -⟩ := takes_dropAtom taking_all atom
    exact shut.suffix (List.suffix_append part r)
  cases kind with
  | number =>
    rw [dropPrimary_number _ atoms] at found
    rw [dropPrimary_number _ atoms', dropUnit_seam edge edge' within stops (Option.some.inj found)]
  | word =>
    rw [dropPrimary_word _ atoms] at found
    rw [dropPrimary_word _ atoms', List.append_cancel_right (Option.some.inj found)]
  | name =>
    by_cases call : (dropJoint behind (r ++ s)).head? = some '('
    · obtain ⟨inner, joint⟩ := List.head?_eq_some_iff.mp call
      rw [dropPrimary_call _ atoms joint] at found
      have closes := ((valuesTake taking_all fuel).arguments found).length_lt
      have opens := (takes_dropGap taking_all .value inner).length_le
      rw [List.length_append] at closes
      have stops' : Within s behind r := within_of_joint call (by decide) (by rw [joint, List.length_cons]; omega)
      rcases dropJoint_seam edge edge' within stops' with ⟨c, z, suffix, same, joint'⟩ | ⟨quiet, -⟩
      · rw [joint, List.cons_append] at same
        obtain ⟨rfl, rfl⟩ := List.cons.inj same
        rw [List.cons_append] at joint'
        rw [dropPrimary_call _ atoms' joint']
        have inside := within.suffix ((List.suffix_cons _ z).trans suffix)
        obtain ⟨w, inner, gap, gap'⟩ := dropGap_before edge edge' .value inside rfl (by omega)
        have := suffix.length_le
        have := inner.length_le
        rw [List.length_cons] at *
        rw [gap] at found
        rw [gap']
        exact ih.arguments (inside.suffix inner) (by omega) found
      · -- No parenthesis stands at the seam.
        exact absurd (quiet '(' call) (by decide)
    · rw [dropPrimary_name _ atoms call] at found
      obtain rfl := List.append_cancel_right (Option.some.inj found)
      refine dropPrimary_name _ atoms' ?_
      rcases dropJoint_seam edge edge' within stops with ⟨c, z, -, joint, joint'⟩ | ⟨-, quiet⟩
      · rw [joint] at call
        rw [joint']
        exact call
      · exact fun call => absurd (quiet '(' call) (by decide)

/-- A value that begins with a mark. -/
theorem dropPrimary_mark_seam {c : Char} {z : List Char} (shut : Shut s' (c :: z))
    (enough : 8 * (z.length + 1) ≤ fuel') (none : dropAtom (c :: z) = none)
    (found : dropPrimary behind (fuel + 1) (c :: z ++ s) = some (y ++ s)) :
    dropPrimary behind (fuel' + 1) (c :: z ++ s') = some (y ++ s') := by
  have atoms : dropAtom (c :: (z ++ s)) = .none := by
    rw [← List.cons_append, dropAtom_seam edge.quiet, none]
    rfl
  have atoms' : dropAtom (c :: (z ++ s')) = .none := by
    rw [← List.cons_append, dropAtom_seam edge'.quiet, none]
    rfl
  have size (y : List Char) : s.length ≤ (y ++ s).length := by
    rw [List.length_append]
    omega
  have within := shut.suffix (List.suffix_cons c z)
  rw [List.cons_append] at found ⊢
  by_cases color : c = '#'
  · subst color
    rw [dropPrimary_color _ atoms] at found
    rw [dropPrimary_color _ atoms']
    exact dropColorCode_joint edge edge' within found
  · by_cases list : c = '['
    · subst list
      rw [dropPrimary_list _ atoms] at found
      rw [dropPrimary_list _ atoms']
      have shorter := ((valuesTake taking_all fuel).list found).length_lt
      obtain ⟨w, suffix, gap, gap'⟩ := dropGap_before edge edge' .value within rfl (Nat.lt_of_le_of_lt (size y) shorter)
      have := suffix.length_le
      rw [gap] at found
      rw [gap']
      exact ih.list (within.suffix suffix) (by omega) found
    · by_cases group : c = '('
      · subst group
        obtain ⟨last, chain, closing⟩ := (dropPrimary_group _ atoms).mp found
        refine (dropPrimary_group _ atoms').mpr ?_
        have shorter := dropChain_lt chain
        have behind := (takes_dropGap taking_all .single last).length_le
        rw [closing, List.length_cons] at behind
        have long := Nat.le_trans (size y) (Nat.le_of_lt behind)
        obtain ⟨w, suffix, gap, gap'⟩ := dropGap_before edge edge' .value within rfl (Nat.lt_of_le_of_lt long shorter)
        have := suffix.length_le
        rw [gap] at chain
        obtain ⟨v, rfl, inner⟩ := ((valuesTake taking_all fuel).chain chain).seam long
        obtain ⟨u, -, same, closing'⟩ := dropGap_mark edge edge' ((within.suffix suffix).suffix inner) closing (size y)
        obtain rfl := List.append_cancel_right same
        refine ⟨v ++ s', ?_, closing'⟩
        rw [gap']
        have := size y
        exact ih.chain (within.suffix suffix) (by omega) (.inr (by rw [closing, List.length_cons]; omega)) chain
      · rw [dropPrimary_other _ atoms ⟨color, list, group⟩] at found
        rw [dropPrimary_other _ atoms' ⟨color, list, group⟩]
        exact dropQuoted_seam edge edge' shut found

theorem dropPrimary_seam (shut : Shut s' x) (enough : 8 * x.length + 1 ≤ fuel') (stops : Within s behind y)
    (found : dropPrimary behind (fuel + 1) (x ++ s) = some (y ++ s)) :
    dropPrimary behind fuel' (x ++ s') = some (y ++ s') := by
  obtain ⟨fuel', rfl⟩ : ∃ n, fuel' = n + 1 := ⟨fuel' - 1, by omega⟩
  rcases atom : dropAtom x with _ | ⟨kind, r⟩
  · rcases x with _ | ⟨c, z⟩
    · have shorter := dropPrimary_lt found
      simp only [List.length_append, List.nil_append] at shorter
      omega
    · exact dropPrimary_mark_seam edge edge' ih shut (Nat.le_of_succ_le_succ enough) atom found
  · exact dropPrimary_atom_seam edge edge' ih shut (Nat.le_of_succ_le_succ enough) stops atom found

theorem dropChain_seam (shut : Shut s' x) (enough : 8 * x.length + 2 ≤ fuel') (stops : Within s behind y)
    (found : dropChain behind (fuel + 1) (x ++ s) = some (y ++ s)) :
    dropChain behind fuel' (x ++ s') = some (y ++ s') := by
  obtain ⟨fuel', rfl⟩ : ∃ n, fuel' = n + 1 := ⟨fuel' - 1, by omega⟩
  obtain ⟨first, primary, rest⟩ := dropChain_succ.mp found
  refine dropChain_succ.mpr ?_
  have gapped := (takes_dropGap taking_all behind first).length_le
  -- The first value ends in front of the seam, since all that follows does.
  have long : s.length ≤ first.length := by
    rcases rest with ⟨c, more, gap, -, -, chain⟩ | ⟨-, rfl⟩
    · have := dropChain_lt chain
      have := (takes_dropGap taking_all .value more).length_le
      rw [gap, List.length_cons] at gapped
      rw [List.length_append] at *
      omega
    · rw [List.length_append]
      omega
  obtain ⟨v, rfl, suffix⟩ := ((valuesTake taking_all fuel).primary primary).seam long
  have shorter := dropPrimary_lt primary
  simp only [List.length_append] at shorter
  have stops' : Within s behind v := by
    rcases rest with ⟨c, more, gap, -, -, chain⟩ | ⟨-, same⟩
    · have := dropChain_lt chain
      have := (takes_dropGap taking_all .value more).length_le
      refine .inr ?_
      rw [gap, List.length_cons]
      rw [List.length_append] at *
      omega
    · exact List.append_cancel_right same ▸ stops
  refine ⟨v ++ s', ih.primary (shut) (by omega) stops' primary, ?_⟩
  rcases dropGap_seam edge edge' (shut.suffix suffix) stops' with ⟨c, z, inner, gap, gap'⟩ | ⟨ends, ends'⟩
  · have next : (dropNext behind (c :: z ++ s')).isNone = (dropNext behind (c :: z ++ s)).isNone := by
      rw [dropNext_seam edge.quiet, dropNext_seam edge'.quiet, Option.isNone_map, Option.isNone_map]
    rcases rest with ⟨_, more, same, operator, none, chain⟩ | ⟨stays, same⟩
    · rw [gap, List.cons_append] at same
      obtain ⟨rfl, rfl⟩ := List.cons.inj same
      have within := (shut.suffix suffix).suffix ((List.suffix_cons c z).trans inner)
      have last := dropChain_lt chain
      rw [List.length_append] at last
      obtain ⟨w, inside, gap, opening⟩ := dropGap_before edge edge' .value within rfl (by omega)
      have := inside.length_le
      have := inner.length_le
      rw [List.length_cons] at this
      rw [gap] at chain
      refine .inl ⟨c, z ++ s', gap', operator, next.trans none, ?_⟩
      rw [opening]
      exact ih.chain (within.suffix inside) (by omega) stops chain
    · refine .inr ⟨?_, by rw [List.append_cancel_right same]⟩
      intro d more there operator
      rw [gap'] at there
      obtain ⟨rfl, rfl⟩ := List.cons.inj there
      exact next.trans (stays _ _ gap operator)
  · -- What ends a value is no operator.
    have mark {s core : List Char} (edge : Edge s core) {c : Char} {more : List Char} (there : core = c :: more) :
        isOperator c = false := by
      have quiet := edge.core_quiet c (by rw [there]; rfl)
      simpa using List.all_eq_true.mp (by decide : quietChars.all (fun c => !isOperator c) = true) c quiet
    rcases rest with ⟨c, more, gap, operator, -⟩ | ⟨-, same⟩
    · rw [mark edge (ends.symm.trans gap)] at operator
      cases operator
    · refine .inr ⟨?_, by rw [List.append_cancel_right same]⟩
      intro c more gap operator
      rw [mark edge' (ends'.symm.trans gap)] at operator
      cases operator

theorem dropSeries_seam {c : Char} {last : List Char} (shut : Shut s' x) (enough : 8 * x.length + 3 ≤ fuel')
    (halt : isHalt c = true) (stops : dropGap .series (y ++ s) = c :: last) (long : s.length ≤ last.length)
    (found : dropSeries (fuel + 1) (x ++ s) = some (y ++ s)) : dropSeries fuel' (x ++ s') = some (y ++ s') := by
  obtain ⟨fuel', rfl⟩ : ∃ n, fuel' = n + 1 := ⟨fuel' - 1, by omega⟩
  obtain ⟨first, chain, rest⟩ := dropSeries_succ.mp found
  refine dropSeries_succ.mpr ?_
  have shorter := dropChain_lt chain
  have gapped := (takes_dropGap taking_all .series first).length_le
  rcases more : dropSeries fuel (dropGap .series first) with _ | stop
  · -- The attempt to go on failed, and fails in front of the same mark again.
    rw [more] at rest
    obtain rfl : first = y ++ s := rest
    obtain ⟨v, same, suffix⟩ := ((valuesTake taking_all fuel).chain chain).seam (by rw [List.length_append]; omega)
    obtain rfl := List.append_cancel_right same
    obtain ⟨w, -, -, gap'⟩ := dropGap_mark edge edge' (shut.suffix suffix) stops long
    have stops' : Within s .series y := .inr (by rw [stops, List.length_cons]; omega)
    refine ⟨y ++ s', ih.chain shut (by omega) stops' chain, ?_⟩
    rw [gap', List.cons_append, dropSeries_halt halt]
    rfl
  · rw [more] at rest
    obtain rfl : stop = y ++ s := rest
    have further := dropSeries_lt more
    rw [List.length_append] at further
    obtain ⟨v, rfl, suffix⟩ := ((valuesTake taking_all fuel).chain chain).seam (by omega)
    obtain ⟨w, inner, gap, gap'⟩ := dropGap_before edge edge' .series (shut.suffix suffix) rfl (by omega)
    have := inner.length_le
    simp only [List.length_append] at shorter
    rw [gap] at more
    refine ⟨v ++ s', ih.chain shut (by omega) (.inr (by rw [gap, List.length_append]; omega)) chain, ?_⟩
    rw [gap', ih.series ((shut.suffix suffix).suffix inner) (by omega) halt stops long more]
    rfl

theorem dropList_seam (shut : Shut s' x) (enough : 8 * x.length + 3 ≤ fuel')
    (found : dropList (fuel + 1) (x ++ s) = some (y ++ s)) : dropList fuel' (x ++ s') = some (y ++ s') := by
  obtain ⟨fuel', rfl⟩ : ∃ n, fuel' = n + 1 := ⟨fuel' - 1, by omega⟩
  obtain ⟨first, c, more, chain, gap, rest⟩ := dropList_succ.mp found
  refine dropList_succ.mpr ?_
  have shorter := dropChain_lt chain
  have gapped := (takes_dropGap taking_all .single first).length_le
  rw [gap, List.length_cons] at gapped
  have long : s.length ≤ more.length := by
    rcases rest with ⟨-, rfl⟩ | ⟨-, list⟩
    · rw [List.length_append]
      omega
    · have := ((valuesTake taking_all fuel).list list).length_lt
      have := (takes_dropGap taking_all .value more).length_le
      rw [List.length_append] at *
      omega
  obtain ⟨v, rfl, suffix⟩ := ((valuesTake taking_all fuel).chain chain).seam (by omega)
  obtain ⟨w, inner, rfl, gap'⟩ := dropGap_mark edge edge' (shut.suffix suffix) gap long
  have stops : Within s .single v := .inr (by rw [gap, List.length_cons]; omega)
  refine ⟨v ++ s', c, w ++ s', ih.chain shut (by omega) stops chain, gap', ?_⟩
  rcases rest with ⟨mark, same⟩ | ⟨mark, list⟩
  · exact .inl ⟨mark, by rw [List.append_cancel_right same]⟩
  · have within := (shut.suffix suffix).suffix ((List.suffix_cons c w).trans inner)
    have closes := ((valuesTake taking_all fuel).list list).length_lt
    rw [List.length_append] at closes
    obtain ⟨u, inside, opening, opening'⟩ := dropGap_before edge edge' .value within rfl (by omega)
    have := inside.length_le
    have := inner.length_le
    rw [List.length_cons] at this
    simp only [List.length_append] at shorter
    rw [opening] at list
    rw [opening']
    exact .inr ⟨mark, ih.list (within.suffix inside) (by omega) list⟩

theorem dropGroups_seam (shut : Shut s' x) (enough : 8 * x.length + 4 ≤ fuel')
    (found : dropGroups (fuel + 1) (x ++ s) = some (y ++ s)) : dropGroups fuel' (x ++ s') = some (y ++ s') := by
  obtain ⟨fuel', rfl⟩ : ∃ n, fuel' = n + 1 := ⟨fuel' - 1, by omega⟩
  obtain ⟨first, c, more, series, gap, rest⟩ := dropGroups_succ.mp found
  refine dropGroups_succ.mpr ?_
  have shorter := dropSeries_lt series
  have gapped := (takes_dropGap taking_all .series first).length_le
  rw [gap, List.length_cons] at gapped
  have long : s.length ≤ more.length := by
    rcases rest with ⟨-, rfl⟩ | ⟨-, groups⟩
    · rw [List.length_append]
      omega
    · have := ((valuesTake taking_all fuel).groups groups).length_lt
      have := (takes_dropGap taking_all .value more).length_le
      rw [List.length_append] at *
      omega
  have halt : isHalt c = true := by
    rcases rest with ⟨rfl, -⟩ | ⟨rfl | rfl, -⟩ <;> rfl
  obtain ⟨v, rfl, suffix⟩ := ((valuesTake taking_all fuel).series series).seam (by omega)
  obtain ⟨w, inner, rfl, gap'⟩ := dropGap_mark edge edge' (shut.suffix suffix) gap long
  refine ⟨v ++ s', c, w ++ s', ih.series shut (by omega) halt gap long series, gap', ?_⟩
  rcases rest with ⟨mark, same⟩ | ⟨mark, groups⟩
  · exact .inl ⟨mark, by rw [List.append_cancel_right same]⟩
  · have within := (shut.suffix suffix).suffix ((List.suffix_cons c w).trans inner)
    have closes := ((valuesTake taking_all fuel).groups groups).length_lt
    rw [List.length_append] at closes
    obtain ⟨u, inside, opening, opening'⟩ := dropGap_before edge edge' .value within rfl (by omega)
    have := inside.length_le
    have := inner.length_le
    rw [List.length_cons] at this
    simp only [List.length_append] at shorter
    rw [opening] at groups
    rw [opening']
    exact .inr ⟨mark, ih.groups (within.suffix inside) (by omega) groups⟩

omit edge edge' in
theorem dropArguments_seam (shut : Shut s' x) (enough : 8 * x.length + 5 ≤ fuel')
    (found : dropArguments (fuel + 1) (x ++ s) = some (y ++ s)) : dropArguments fuel' (x ++ s') = some (y ++ s') := by
  obtain ⟨fuel', rfl⟩ : ∃ n, fuel' = n + 1 := ⟨fuel' - 1, by omega⟩
  have shorter := ((valuesTake taking_all _).arguments found).length_lt
  rcases x with _ | ⟨c, z⟩
  · simp only [List.length_append, List.nil_append] at shorter
    omega
  · rcases dropArguments_succ.mp found with ⟨rest, same, rfl⟩ | ⟨other, groups⟩
    · obtain ⟨rfl, rest⟩ := List.cons.inj same
      rw [← List.append_cancel_right rest]
      exact dropArguments_succ.mpr (.inl ⟨_, rfl, rfl⟩)
    · refine dropArguments_succ.mpr (.inr ⟨?_, ih.groups shut (by omega) groups⟩)
      exact fun closing => other closing

end Step

theorem seamAt (fuel : Nat) : SeamAt s s' fuel := by
  induction fuel with
  | zero => constructor <;> intros <;> rename_i found <;> cases found
  | succ fuel ih =>
    exact ⟨dropPrimary_seam edge edge' ih, dropChain_seam edge edge' ih, dropSeries_seam edge edge' ih,
      dropList_seam edge edge' ih, dropGroups_seam edge edge' ih, dropArguments_seam ih⟩

/-- A value with its operators that is read in front of one text is read in front of the other one. -/
theorem dropValue_seam {spot : Spot} {x y : List Char} (shut : Shut s' x) (stops : Within s spot y)
    (found : dropValue spot (x ++ s) = some (y ++ s)) : dropValue spot (x ++ s') = some (y ++ s') := by
  refine (seamAt edge edge' _).chain shut ?_ stops found
  rw [valueFuel, List.length_append]
  omega

end Edges

end Retouch.Sheet
