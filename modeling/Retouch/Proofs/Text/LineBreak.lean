import Retouch.Text.LineBreak

/-!
# Texts with one kind of line breaks

To give a text the line breaks of one kind changes nothing just if it has no others. What a text is given it
is given piece by piece, as long as no pair is cut in two; and the text never gets shorter when its line feeds
become pairs, so a beginning or an end of it that is found again was left alone.

## Main statements

* `toFeeds_eq_self_iff` and `toPairs_toFeeds_eq_self_iff`: the texts with one kind of line breaks.
* `apply_append`: a text can be given its line breaks piece by piece.
* `steady_iff`: when two texts that took the place of one leave it its line breaks, or both take them from it.
* `prefix_apply_iff`, `suffix_apply_iff` and `around_apply_iff`: what is found again at the beginning, at the end
  and at both.
-/
namespace Retouch.Text.LineBreak

variable {kind : LineBreak} {cs xs ys rest more : List Char} {c : Char}

/-- All line breaks of the text are of the kind. -/
def Pure (kind : LineBreak) (cs : List Char) : Prop := kind.apply cs = cs

instance (kind : LineBreak) (cs : List Char) : Decidable (Pure kind cs) :=
  inferInstanceAs (Decidable (kind.apply cs = cs))

/-- Whether every line feed of the text is the second half of a pair. -/
def allPairs : List Char → Bool
  | '\r' :: '\n' :: rest => allPairs rest
  | c :: rest => c != '\n' && allPairs rest
  | [] => true

theorem length_toFeeds_le (cs : List Char) : (toFeeds cs).length ≤ cs.length := by
  fun_induction toFeeds cs with
  | case1 rest ih => simp only [List.length_cons]; omega
  | case2 c rest apart ih => simp only [List.length_cons]; omega
  | case3 => exact Nat.le_refl _

theorem toFeeds_eq_self_iff : toFeeds cs = cs ↔ hasPair cs = false := by
  fun_induction toFeeds cs with
  | case1 rest ih =>
    have shorter := length_toFeeds_le rest
    refine iff_of_false (fun same => ?_) (by simp [hasPair])
    have := congrArg List.length same
    simp only [List.length_cons] at this
    omega
  | case2 c rest apart ih =>
    have tail : hasPair (c :: rest) = hasPair rest := by
      rw [hasPair]
      intro more carriage feed
      exact apart more carriage feed
    rw [tail, ← ih]
    simp
  | case3 => simp [hasPair]


theorem toPairs_cons (c : Char) (rest : List Char) :
    toPairs (c :: rest) = (if c = '\n' then ['\r', '\n'] else [c]) ++ toPairs rest := rfl

theorem allPairs_cons (other : c ≠ '\n') (apart : ∀ more, c = '\r' → rest = '\n' :: more → False) :
    allPairs (c :: rest) = allPairs rest := by
  rw [allPairs]
  · simp [other]
  · exact apart

theorem toPairs_toFeeds_eq_self_iff : toPairs (toFeeds cs) = cs ↔ allPairs cs = true := by
  fun_induction toFeeds cs with
  | case1 rest ih => simp [toPairs_cons, allPairs, ih]
  | case2 c rest apart ih =>
    rw [toPairs_cons]
    by_cases feed : c = '\n'
    · subst feed
      simp [allPairs]
    · rw [if_neg feed, allPairs_cons feed apart, ← ih]
      simp
  | case3 => simp [toPairs, allPairs]

/-- A text with line breaks of one kind only. -/
theorem pure_iff : Pure kind cs ↔ (match kind with | .feed => !hasPair cs | .pair => allPairs cs) = true := by
  cases kind with
  | feed => exact toFeeds_eq_self_iff.trans (by simp)
  | pair => exact toPairs_toFeeds_eq_self_iff

/-! ### The characters -/

/-- The line breaks bring in carriage returns at most. -/
theorem mem_apply (member : c ∈ kind.apply cs) : c ∈ cs ∨ c = '\r' := by
  have feeds (more : c ∈ toFeeds cs) : c ∈ cs := by
    clear member
    fun_induction toFeeds cs with
    | case1 rest ih =>
      rcases List.mem_cons.mp more with rfl | later
      · simp
      · simp [ih later]
    | case2 d rest apart ih =>
      rcases List.mem_cons.mp more with rfl | later
      · simp
      · simp [ih later]
    | case3 => exact more
  cases kind with
  | feed => exact .inl (feeds member)
  | pair =>
    obtain ⟨d, there, written⟩ := List.mem_flatMap.mp member
    split at written
    · rename_i feed
      rcases List.mem_cons.mp written with carriage | rest
      · exact .inr carriage
      · rw [feed] at there
        exact .inl (feeds (List.mem_singleton.mp rest ▸ there))
    · exact .inl (feeds (List.mem_singleton.mp written ▸ there))

/-- A text without carriage returns has line feeds only. -/
theorem unify_eq_self (none : '\r' ∉ cs) : unify cs = cs := by
  induction cs with
  | nil => rfl
  | cons c rest ih =>
    simp only [List.mem_cons, not_or] at none
    have other : c ≠ '\r' := fun same => none.1 same.symm
    rw [unify, ih none.2]
    · exact fun _ same _ => other same
    · exact other

/-! ### Piece by piece -/

/-- No pair begins at the end of the one text and ends at the beginning of the other. -/
def Apart (xs ys : List Char) : Prop := xs.getLast? = some '\r' → ys.head? ≠ some '\n'

theorem Apart.tail {c : Char} (apart : Apart (c :: xs) ys) : Apart xs ys := by
  intro last
  apply apart
  rw [List.getLast?_cons, last]
  rfl

theorem toFeeds_append (apart : Apart xs ys) : toFeeds (xs ++ ys) = toFeeds xs ++ toFeeds ys := by
  fun_induction toFeeds xs with
  | case1 rest ih => simp only [List.cons_append, toFeeds, ih apart.tail.tail]
  | case2 c rest single ih =>
    rw [List.cons_append, toFeeds, ih apart.tail, List.cons_append]
    intro more carriage feed
    subst carriage
    cases rest with
    | nil =>
      obtain rfl : ys = '\n' :: more := feed
      exact apart rfl rfl
    | cons d rest =>
      obtain ⟨rfl, -⟩ := List.cons.inj feed
      exact single rest rfl rfl
  | case3 => rfl

/-- A text can be given its line breaks piece by piece. -/
theorem apply_append (kind : LineBreak) (apart : Apart xs ys) :
    kind.apply (xs ++ ys) = kind.apply xs ++ kind.apply ys := by
  cases kind with
  | feed => exact toFeeds_append apart
  | pair =>
    unfold apply
    dsimp only
    rw [toFeeds_append apart]
    exact List.flatMap_append

/-- A text without carriage returns has no pairs. -/
theorem pure_of_single (none : '\r' ∉ cs) : Pure .feed cs := by
  show toFeeds cs = cs
  induction cs with
  | nil => rfl
  | cons c rest ih =>
    simp only [List.mem_cons, not_or] at none
    rw [toFeeds_cons (Ne.symm none.1), ih none.2]

theorem Pure.append (apart : Apart xs ys) (front : Pure kind xs) (behind : Pure kind ys) : Pure kind (xs ++ ys) := by
  unfold Pure at front behind ⊢
  rw [apply_append _ apart, front, behind]

theorem hasPair_of_back (none : hasPair (xs ++ ys) = false) : hasPair ys = false := by
  induction xs with
  | nil => exact none
  | cons c rest ih => exact ih (hasPair_tail none)

theorem hasPair_of_front (none : hasPair (xs ++ ys) = false) : hasPair xs = false := by
  fun_induction hasPair xs with
  | case1 rest => simp [hasPair] at none
  | case2 c rest apart ih => exact ih (hasPair_tail none)
  | case3 => rfl

/-! ### The line breaks of what was written -/

theorem mem_apply_of_mem (other : c ≠ '\r') (member : c ∈ cs) : c ∈ kind.apply cs := by
  have feeds : c ∈ toFeeds cs := by
    fun_induction toFeeds cs with
    | case1 rest ih =>
      rcases List.mem_cons.mp member with carriage | later
      · exact absurd carriage other
      · rcases List.mem_cons.mp later with rfl | last
        · exact List.mem_cons_self
        · exact List.mem_cons_of_mem _ (ih last)
    | case2 d rest apart ih =>
      rcases List.mem_cons.mp member with rfl | later
      · exact List.mem_cons_self
      · exact List.mem_cons_of_mem _ (ih later)
    | case3 => exact member
  cases kind with
  | feed => exact feeds
  | pair =>
    refine List.mem_flatMap.mpr ⟨c, feeds, ?_⟩
    split
    · rename_i feed
      simp [feed]
    · exact List.mem_singleton.mpr rfl

theorem hasPair_toPairs (cs : List Char) : hasPair (toPairs cs) = true ↔ '\n' ∈ cs := by
  induction cs with
  | nil => simp [toPairs, hasPair]
  | cons c rest ih =>
    rw [toPairs_cons]
    by_cases feed : c = '\n'
    · subst feed
      simp [hasPair]
    · rw [if_neg feed, List.singleton_append, List.mem_cons, or_iff_right (Ne.symm feed), ← ih, hasPair]
      -- A line feed of the rest comes behind a carriage return of its own.
      intro more carriage same
      cases rest with
      | nil => cases same
      | cons d rest =>
        rw [toPairs_cons] at same
        split at same
        · cases same
        · rename_i other
          exact other (List.cons.inj same).1

theorem mem_toFeeds : '\n' ∈ toFeeds cs ↔ '\n' ∈ cs :=
  ⟨fun member => (@mem_apply .feed cs _ member).resolve_right (by decide),
    fun member => @mem_apply_of_mem .feed cs _ (by decide) member⟩

/-- A text that was given pairs has some just if it has line feeds. -/
theorem ofText_apply_pair : ofText (LineBreak.pair.apply cs) = .pair ↔ '\n' ∈ cs := by
  rw [← mem_toFeeds, ← hasPair_toPairs, ofText]
  show (if hasPair (toPairs (toFeeds cs)) = true then _ else _) = _ ↔ _
  split <;> simp_all

theorem toPairs_eq_self_iff : toPairs cs = cs ↔ '\n' ∉ cs := by
  induction cs with
  | nil => simp [toPairs]
  | cons c rest ih =>
    rw [toPairs_cons]
    by_cases feed : c = '\n'
    · subst feed
      simp
    · rw [if_neg feed, List.singleton_append, List.cons.injEq, ih]
      simp [Ne.symm feed]

/-- Both kinds of line breaks come to the same in a text without any. -/
theorem apply_eq_iff : LineBreak.pair.apply cs = LineBreak.feed.apply cs ↔ '\n' ∉ cs :=
  toPairs_eq_self_iff.trans (not_congr mem_toFeeds)

theorem ofText_eq_feed (pure : Pure .feed cs) : ofText cs = .feed := by
  rw [ofText, if_neg (by simp [toFeeds_eq_self_iff.mp pure])]

/-- Two texts take the place of one with its line breaks, and then a text takes the place of each with those that it
has. This comes to the same, unless one of the two has lost the line breaks of a text with pairs, and the last one has
some again. -/
theorem steady_iff {first second both : List Char}
    (pure : ofText cs = .feed → Pure .feed first ∧ Pure .feed second) :
    (ofText ((ofText cs).apply first)).apply both = (ofText ((ofText cs).apply second)).apply both ↔
      ¬(ofText cs = .pair ∧ ¬('\n' ∈ first ↔ '\n' ∈ second) ∧ '\n' ∈ both) := by
  cases kind : ofText cs with
  | feed =>
    obtain ⟨one, two⟩ := pure kind
    have one' : LineBreak.feed.apply first = first := one
    have two' : LineBreak.feed.apply second = second := two
    rw [one', two', ofText_eq_feed one, ofText_eq_feed two]
    simp
  | pair =>
    rw [← ofText_apply_pair, ← @ofText_apply_pair second]
    cases ofText (LineBreak.pair.apply first) <;> cases ofText (LineBreak.pair.apply second)
    · simp
    · simpa using eq_comm.trans apply_eq_iff
    · simpa using apply_eq_iff
    · simp

/-! ### Beginnings and ends -/

theorem allPairs_cases (all : allPairs (c :: rest) = true) :
    (∃ more, c = '\r' ∧ rest = '\n' :: more ∧ allPairs more = true) ∨ (c ≠ '\n' ∧ allPairs rest = true) := by
  unfold allPairs at all
  split at all
  · rename_i more same
    obtain ⟨rfl, rfl⟩ := List.cons.inj same
    exact .inl ⟨more, rfl, rfl, all⟩
  · rename_i same
    obtain ⟨rfl, rfl⟩ := List.cons.inj same
    exact .inr (by simpa using all)
  · rename_i same
    cases same

theorem allPairs_of_front (all : allPairs (xs ++ ys) = true) : allPairs xs = true := by
  fun_induction allPairs xs with
  | case1 rest ih => exact ih all
  | case2 c rest apart ih =>
    rcases allPairs_cases all with ⟨more, rfl, same, -⟩ | ⟨other, later⟩
    · -- Either the pair is cut in two, or it would be one of the text in front.
      cases rest with
      | nil => rfl
      | cons d rest =>
        obtain ⟨rfl, -⟩ := List.cons.inj same
        exact absurd rfl (apart rest rfl)
    · simp [other, ih later]
  | case3 => rfl

theorem allPairs_of_back (all : allPairs (xs ++ ys) = true) :
    allPairs ys = true ∨ ∃ rest, ys = '\n' :: rest ∧ allPairs rest = true := by
  induction xs using allPairs.induct with
  | case1 rest ih => exact ih all
  | case2 c rest apart ih =>
    rcases allPairs_cases all with ⟨more, rfl, same, later⟩ | ⟨-, later⟩
    · cases rest with
      | nil => exact .inr ⟨more, same, later⟩
      | cons d rest =>
        obtain ⟨rfl, -⟩ := List.cons.inj same
        exact absurd rfl (apart rest rfl)
    · exact ih later
  | case3 => exact .inl all

theorem pure_of_ofText (feeds : ofText cs = .feed) : Pure .feed cs := by
  refine toFeeds_eq_self_iff.mpr ?_
  unfold ofText at feeds
  split at feeds
  · cases feeds
  · simpa using ‹¬hasPair cs = true›

/-- The parts of a text without pairs have none. -/
theorem Pure.parts (pure : Pure .feed (xs ++ ys)) : Pure .feed xs ∧ Pure .feed ys := by
  have none := toFeeds_eq_self_iff.mp pure
  exact ⟨toFeeds_eq_self_iff.mpr (hasPair_of_front none), toFeeds_eq_self_iff.mpr (hasPair_of_back none)⟩

/-- What a text with line breaks of one kind begins with has no others. -/
theorem Pure.front (pure : Pure kind (xs ++ ys)) : Pure kind xs := by
  cases kind with
  | feed => exact pure.parts.1
  | pair => exact toPairs_toFeeds_eq_self_iff.mpr (allPairs_of_front (toPairs_toFeeds_eq_self_iff.mp pure))

/-- What a text with line breaks of one kind ends with has no others, but it may begin within one. -/
theorem Pure.behind (pure : Pure kind (xs ++ ys)) : Pure kind ys ∨ ∃ rest, ys = '\n' :: rest ∧ Pure kind rest := by
  cases kind with
  | feed => exact .inl pure.parts.2
  | pair =>
    rcases allPairs_of_back (toPairs_toFeeds_eq_self_iff.mp pure) with whole | ⟨rest, begins, whole⟩
    · exact .inl (toPairs_toFeeds_eq_self_iff.mpr whole)
    · exact .inr ⟨rest, begins, toPairs_toFeeds_eq_self_iff.mpr whole⟩

theorem allPairs_toPairs (cs : List Char) : allPairs (toPairs cs) = true := by
  induction cs with
  | nil => rfl
  | cons c rest ih =>
    rw [toPairs_cons]
    split
    · exact ih
    · rename_i other
      rw [List.singleton_append]
      -- A carriage return does not come together with a feed of the rest, which is behind its own one.
      rw [allPairs_cons other, ih]
      intro more _ same
      rw [same] at ih
      simp [allPairs] at ih

theorem length_le_apply_pair (cs : List Char) : cs.length ≤ (LineBreak.pair.apply cs).length := by
  unfold apply
  fun_induction toFeeds cs with
  | case1 rest ih =>
    simp only [toPairs_cons, if_true, List.length_append, List.length_cons, List.length_nil] at ih ⊢
    omega
  | case2 c rest apart ih =>
    have some_ : 1 ≤ (if c = '\n' then ['\r', '\n'] else [c]).length := by split <;> simp
    simp only [toPairs_cons, List.length_append, List.length_cons] at ih ⊢
    omega
  | case3 => exact Nat.le_refl _

/-- Line breaks that are given to a text with no other pairs do not make it shorter. -/
theorem length_le_apply (feeds : kind = .feed → Pure .feed cs) : cs.length ≤ (kind.apply cs).length := by
  cases kind with
  | feed => exact Nat.le_of_eq (congrArg List.length (feeds rfl)).symm
  | pair => exact length_le_apply_pair cs

theorem apply_ne_nil (filled : cs ≠ []) : kind.apply cs ≠ [] := by
  cases kind with
  | feed =>
    unfold apply
    dsimp only
    unfold toFeeds
    split <;> simp_all
  | pair =>
    intro none
    have := length_le_apply_pair cs
    rw [none] at this
    exact filled (List.length_eq_zero_iff.mp (Nat.le_zero.mp this))

/-- A beginning that is found again had pairs only. -/
theorem prefix_apply_iff : xs <+: LineBreak.pair.apply xs ++ more ↔ Pure .pair xs := by
  constructor
  · intro found
    obtain ⟨rest, same⟩ := List.prefix_of_prefix_length_le found (List.prefix_append _ _) (length_le_apply_pair xs)
    have all : allPairs (xs ++ rest) = true := by
      rw [same]
      exact allPairs_toPairs _
    exact pure_iff.mpr (allPairs_of_front all)
  · intro all
    rw [show LineBreak.pair.apply xs = xs from all]
    exact List.prefix_append _ _

/-- An end that is found again had pairs only, but that it may start within one. -/
theorem suffix_apply_iff : ys <:+ more ++ LineBreak.pair.apply ys ↔
    Pure .pair ys ∨ ∃ rest, ys = '\n' :: rest ∧ Pure .pair rest := by
  constructor
  · intro found
    obtain ⟨before, same⟩ := List.suffix_of_suffix_length_le found (List.suffix_append _ _) (length_le_apply_pair ys)
    have all : allPairs (before ++ ys) = true := by
      rw [same]
      exact allPairs_toPairs _
    rcases allPairs_of_back all with whole | ⟨rest, begins, whole⟩
    · exact .inl (pure_iff.mpr whole)
    · exact .inr ⟨rest, begins, pure_iff.mpr whole⟩
  · rintro (all | ⟨rest, rfl, all⟩)
    · rw [show LineBreak.pair.apply ys = ys from all]
      exact List.suffix_append _ _
    · have written : LineBreak.pair.apply ('\n' :: rest) = '\r' :: '\n' :: LineBreak.pair.apply rest := by
        unfold apply
        rw [toFeeds_cons (by decide)]
        rfl
      rw [written, show LineBreak.pair.apply rest = rest from all]
      exact ⟨more ++ ['\r'], by simp⟩

/-- What stands around a text is found again around another one, when both are given their line breaks, just if
it had no other line breaks; but what stands behind may begin within a pair. -/
theorem around_apply_iff (feeds : kind = .feed → Pure .feed xs ∧ Pure .feed ys) (inner : List Char) :
    (∃ middle, kind.apply xs ++ inner ++ kind.apply ys = xs ++ middle ++ ys) ↔
      Pure kind xs ∧ (Pure kind ys ∨ ∃ rest, ys = '\n' :: rest ∧ Pure kind rest) := by
  cases kind with
  | feed =>
    obtain ⟨front, behind⟩ := feeds rfl
    refine iff_of_true ⟨inner, ?_⟩ ⟨front, .inl behind⟩
    rw [show LineBreak.feed.apply xs = xs from front, show LineBreak.feed.apply ys = ys from behind]
  | pair =>
    constructor
    · rintro ⟨middle, same⟩
      have begins : xs <+: LineBreak.pair.apply xs ++ (inner ++ LineBreak.pair.apply ys) := by
        rw [← List.append_assoc, same, List.append_assoc]
        exact List.prefix_append _ _
      have ends : ys <:+ LineBreak.pair.apply xs ++ inner ++ LineBreak.pair.apply ys := by
        rw [same]
        exact List.suffix_append _ _
      exact ⟨prefix_apply_iff.mp begins, suffix_apply_iff.mp ends⟩
    · rintro ⟨front, behind⟩
      have ends : ys <:+ inner ++ LineBreak.pair.apply ys := suffix_apply_iff.mpr behind
      obtain ⟨before, same⟩ := ends
      refine ⟨before, ?_⟩
      rw [show LineBreak.pair.apply xs = xs from front, List.append_assoc, ← same, List.append_assoc]

end Retouch.Text.LineBreak
