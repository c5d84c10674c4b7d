import Retouch.Proofs.Sheet.Taken
import Retouch.Proofs.Sheet.Reading
import Retouch.Proofs.Style.Parts
import Retouch.Proofs.Style.Token
import Retouch.Sheet.Document

/-!
# Looking up rules

A rule is looked up by one of its selectors. The list in front of its block was read as selectors with commas between
them; the search cuts the text of the list itself, at commas outside of parentheses and quotes, and fails on a text
that cannot be cut.

## Main statements

* `matching_eq`: the search gives the rules that match, unless some list leaves a quote or a parenthesis open.
* `findsListed_iff`: the rules that list a selector are found just if the texts of all lists can be cut, and have this
  selector among their parts where it is listed.
* `Usual.cutAlike`: the text of a list without quotes, backslashes and slashes is cut into its selectors.
-/
namespace Retouch.Sheet

open Style Style.Nesting Text

variable {sheet : Sheet} {rule : Rule} {normal cs rest head : List Char} {parts : List (List Char)}

/-- The selectors of a rule, as the list in front of its block is read. -/
def listed (sheet : Sheet) (rule : Rule) : List (List Char) := divide (sheet.source.drop rule.start)

/-- Whether a rule lists a selector, in the form in which selectors are compared. -/
def lists (sheet : Sheet) (normal : List Char) (rule : Rule) : Bool :=
  ((sheet.listed rule).map normalizeSelector).contains normal

/-- All rules that list a selector are found, and no others, in the order of the document. -/
def FindsListed (sheet : Sheet) (selector : String) : Prop :=
  sheet.findAll selector =
    .ok (sheet.rules.zipIdx.filter fun entry => sheet.lists (normalizeSelector selector.toList) entry.1)

/-- The text of a list of selectors can be cut, and a selector is among the parts just if it is listed. -/
def CutAlike (sheet : Sheet) (normal : List Char) (rule : Rule) : Prop :=
  ∃ parts, rule.selectors = .ok parts ∧
    (normal ∈ parts.map normalizeSelector ↔ normal ∈ (sheet.listed rule).map normalizeSelector)

/-- One of the selectors in the list of a rule is the same as a given one, but for case and blanks. -/
def Rule.Matches (normal : List Char) (rule : Rule) : Prop :=
  ∃ parts, rule.selectors = .ok parts ∧ normal ∈ parts.map normalizeSelector

/-! ### The search over all rules -/

theorem matches_eq_true_iff : rule.matches normal = .ok true ↔ rule.Matches normal := by
  unfold Rule.matches Rule.Matches
  cases rule.selectors with
  | error e => simp [Except.map]
  | ok parts => simp [Except.map]

instance : Decidable (rule.Matches normal) := decidable_of_iff _ matches_eq_true_iff

theorem matches_eq_lists_iff : rule.matches normal = .ok (sheet.lists normal rule) ↔ sheet.CutAlike normal rule := by
  unfold Rule.matches CutAlike lists
  cases found : rule.selectors with
  | error e => simp [Except.map]
  | ok parts =>
    simp only [Except.map, Except.ok.injEq, exists_eq_left']
    rw [← List.contains_iff_mem, ← List.contains_iff_mem, Bool.eq_iff_iff]

/-- A list can be cut just if it leaves nothing open. -/
theorem split_selector_eq_none_iff : splitTopLevel (.char ',') rule.selector = none ↔ LeavesOpen rule.selector := by
  have unmarked : ',' ∉ ['\'', '"', '(', ')'] := by decide
  have separating : Separating (.char ',') ',' := separating_ofText unmarked
  exact Separator.split_eq_none_iff separating

theorem matches_of_open (opened : LeavesOpen rule.selector) :
    rule.matches normal = .error ⟨String.ofList rule.selector⟩ := by
  rw [Rule.matches, Rule.selectors, split_selector_eq_none_iff.mpr opened]
  rfl

theorem matches_of_closed (closed : ¬LeavesOpen rule.selector) :
    rule.matches normal = .ok (decide (rule.Matches normal)) := by
  obtain ⟨parts, found⟩ := Option.ne_none_iff_exists'.mp (mt split_selector_eq_none_iff.mp closed)
  have told : ∃ holds, rule.matches normal = .ok holds := by
    rw [Rule.matches, Rule.selectors, found]
    exact ⟨_, rfl⟩
  obtain ⟨holds, told⟩ := told
  have same : rule.Matches normal ↔ holds = true := by rw [← matches_eq_true_iff, told, Except.ok.injEq]
  rw [told, Except.ok.injEq]
  simp only [same, Bool.decide_eq_true]

/-- The search gives the entries that match, unless some list leaves something open; it complains about the first of
these lists. -/
theorem matching_eq (normal : List Char) (entries : List (Rule × Nat)) :
    matching normal entries =
      match entries.find? (LeavesOpen ·.1.selector) with
      | some entry => .error ⟨String.ofList entry.1.selector⟩
      | none => .ok (entries.filter fun entry => entry.1.Matches normal) := by
  induction entries with
  | nil => rfl
  | cons entry entries ih =>
    rw [matching, ih, List.find?_cons]
    by_cases opened : LeavesOpen entry.1.selector
    · rw [matches_of_open opened, decide_eq_true opened]
      rfl
    · rw [matches_of_closed opened, decide_eq_false opened]
      cases entries.find? (LeavesOpen ·.1.selector) with
      | some e => rfl
      | none =>
        rw [List.filter_cons]
        rfl

/-- Of the entries the search gives those of a class just if it tells the class of each entry. -/
theorem matching_eq_filter_iff {entries : List (Rule × Nat)} (holds : Rule → Bool) :
    matching normal entries = .ok (entries.filter fun entry => holds entry.1) ↔
      ∀ entry ∈ entries, entry.1.matches normal = .ok (holds entry.1) := by
  rw [matching_eq]
  cases found : entries.find? (LeavesOpen ·.1.selector) with
  | some entry =>
    have opened : LeavesOpen entry.1.selector := by simpa using List.find?_some found
    refine iff_of_false nofun fun told => ?_
    have ok := told entry (List.mem_of_find?_eq_some found)
    rw [matches_of_open opened] at ok
    cases ok
  | none =>
    have closed : ∀ entry ∈ entries, ¬LeavesOpen entry.1.selector := by
      simpa only [List.find?_eq_none, decide_eq_true_eq] using found
    rw [Except.ok.injEq]
    constructor
    · intro same entry member
      have kept := congrArg (entry ∈ ·) same
      simp only [List.mem_filter, member, true_and, eq_iff_iff] at kept
      rw [matches_of_closed (closed entry member), Except.ok.injEq]
      exact Bool.eq_iff_iff.mpr kept
    · intro told
      refine List.filter_congr fun entry member => ?_
      have here := told entry member
      rw [matches_of_closed (closed entry member)] at here
      exact Except.ok.inj here

/-- The search finds what is listed just if it cuts the texts of all rules alike. -/
theorem findsListed_iff_cutAlike (sheet : Sheet) (selector : String) :
    sheet.FindsListed selector ↔ ∀ rule ∈ sheet.rules, sheet.CutAlike (normalizeSelector selector.toList) rule := by
  unfold FindsListed findAll
  rw [matching_eq_filter_iff]
  constructor
  · intro told rule member
    obtain ⟨index, there⟩ := List.getElem?_of_mem member
    exact matches_eq_lists_iff.mp (told (rule, index) (List.mem_zipIdx_iff_getElem?.mpr there))
  · intro alike entry member
    exact matches_eq_lists_iff.mpr (alike entry.1 (List.mem_of_getElem? (List.mem_zipIdx_iff_getElem?.mp member)))

/-! ### Lists of selectors -/

/-- What stands between two selectors of a list: blanks, unless a comment is among it. -/
def Gap (gap : List Char) : Prop := '/' ∈ gap ∨ ∀ c ∈ gap, isPlainBlank c = true

theorem takes_slash {spot : Spot} (found : dropComment spot cs = some rest) : Takes ('/' ∈ ·) cs rest := by
  unfold dropComment at found
  split at found
  · obtain ⟨part, rfl, -⟩ := takes_afterComment found
    exact ⟨'/' :: '*' :: part, rfl, List.mem_cons_self⟩
  · rename_i line
    split at found
    · cases found
      obtain ⟨part, split, -⟩ := takes_dropWhile (· != '\n') line
      exact ⟨'/' :: '/' :: part, congrArg _ (congrArg _ split), List.mem_cons_self⟩
    · cases found
  · cases found

theorem gap_dropGapWithin {spot : Spot} (fuel : Nat) (cs : List Char) : Takes Gap cs (dropGapWithin spot fuel cs) := by
  induction fuel generalizing cs with
  | zero => exact ⟨[], rfl, .inr (by simp)⟩
  | succ fuel ih =>
    have split := (List.takeWhile_append_dropWhile (p := isPlainBlank) (l := cs)).symm
    unfold dropGapWithin
    dsimp only
    split
    · rename_i rest found
      obtain ⟨comment, opened, slash⟩ := takes_slash found
      obtain ⟨more, behind, -⟩ := ih rest
      refine ⟨cs.takeWhile isPlainBlank ++ (comment ++ more), ?_, .inl (by simp [slash])⟩
      rw [List.append_assoc, List.append_assoc, ← behind, ← opened, List.takeWhile_append_dropWhile]
    · exact ⟨cs.takeWhile isPlainBlank, split, .inr fun c member => List.mem_takeWhile_imp member⟩

theorem gap_dropGap (spot : Spot) (cs : List Char) : Takes Gap cs (dropGap spot cs) := by
  unfold dropGap
  split
  · exact gap_dropGapWithin _ cs
  · exact ⟨[], rfl, .inr (by simp)⟩

/-- Selectors with commas and gaps between them. -/
inductive Listing (outer : List Char → Prop) : List Char → List (List Char) → Prop
  | last {part : List Char} (selector : outer part) : Listing outer part [part]
  | more {part gap gap' head : List Char} {parts : List (List Char)} (selector : outer part) (early : Gap gap)
      (late : Gap gap') (others : Listing outer head parts) :
      Listing outer (part ++ gap ++ ',' :: (gap' ++ head)) (part :: parts)

theorem takes_readSelectors {outer inner : List Char → Prop} (taking : Taking outer inner) {fuel : Nat}
    (found : readSelectors fuel cs = some (parts, rest)) : Takes (Listing outer · parts) cs rest := by
  induction fuel generalizing cs parts rest with
  | zero => cases found
  | succ fuel ih =>
    unfold readSelectors at found
    split at found
    · cases found
    · rename_i stop dropped
      obtain ⟨part, rfl, selector⟩ := takes_dropSelector taking dropped
      obtain ⟨gap, whole, early⟩ := gap_dropGap .outside stop
      rw [before_append] at found
      split at found
      · rename_i more split
        obtain ⟨gap', whole', late⟩ := gap_dropGap .outside more
        obtain ⟨⟨others, behind⟩, read, same⟩ := Option.map_eq_some_iff.mp found
        cases same
        obtain ⟨head, whole'', listing⟩ := ih read
        refine ⟨_, ?_, .more selector early late listing⟩
        rw [whole, split, whole', whole'']
        simp
      · cases found
        exact ⟨part, rfl, .last selector⟩

/-! ### Balanced texts -/

/-- Each parenthesis of a text that ends outside of quotes is closed in it, and none is closed that was not opened. -/
structure Balanced (cs : List Char) : Prop where
  calm : calm outside cs = true
  closed : outside.run cs = outside

theorem Balanced.append {a b : List Char} (one : Balanced a) (two : Balanced b) : Balanced (a ++ b) :=
  ⟨by rw [Nesting.calm, avoids_append, one.closed]; simp [one.calm, two.calm],
    by rw [run_append, one.closed, two.closed]⟩

theorem Balanced.single {c : Char} (inert : isInert c = true) : Balanced [c] := by
  have others : ∀ d ∈ [c], isInert d = true := by simpa using inert
  refine ⟨avoids_of_none (fun d member => ?_) outside, run_inert Sound.outside others⟩
  have other := others d member
  unfold isInert at other
  simp only [Bool.not_eq_true', Bool.or_eq_false_iff] at other
  exact other.2

/-- In parentheses nothing stands outside. -/
theorem Balanced.group {cs : List Char} (balanced : Balanced cs) :
    Balanced ('(' :: cs ++ [')']) ∧ avoids isComma outside ('(' :: cs ++ [')']) = true := by
  have name : Callable [] := by simp [Callable]
  refine ⟨⟨?_, run_call name balanced.closed⟩, ?_⟩
  · exact (calm_call_iff name balanced.closed).trans balanced.calm
  · have inside : avoids isComma outside.deeper (cs ++ [')']) = true := by
      rw [avoids_append, avoids_deeper_of_calm balanced.calm]
      simp [avoids, isComma]
    exact inside

/-- A text without quotes, backslashes and slashes. -/
def Unmarked (cs : List Char) : Prop := ∀ c ∈ cs, isMark c = false

theorem unmarked_append {a b : List Char} : Unmarked (a ++ b) ↔ Unmarked a ∧ Unmarked b := by
  simp only [Unmarked, List.mem_append, or_imp, forall_and]

/-- Commas that stand outside of parentheses stand in brackets. -/
def Uncut (cs : List Char) : Prop := ('[' ∈ cs → ',' ∉ cs) → avoids isComma outside cs = true

/-- Without marks, what selectors take is balanced, and it is not cut. -/
theorem taking_uncut :
    Taking (fun cs => Unmarked cs → Balanced cs ∧ Uncut cs) (fun cs => Unmarked cs → Balanced cs) where
  nil := fun _ => ⟨⟨rfl, rfl⟩, fun _ => rfl⟩
  append := by
    intro a b one two unmarked
    obtain ⟨first, second⟩ := unmarked_append.mp unmarked
    obtain ⟨balanced, uncut⟩ := one first
    obtain ⟨balanced', uncut'⟩ := two second
    refine ⟨balanced.append balanced', fun apart => ?_⟩
    rw [avoids_append, balanced.closed, Bool.and_eq_true]
    simp only [List.mem_append, not_or, or_imp] at apart
    exact ⟨uncut fun bracket => (apart.1 bracket).1, uncut' fun bracket => (apart.2 bracket).2⟩
  single := by
    intro c undivided unmarked
    have mark := unmarked c (by simp)
    simp only [isMark, isDivider, Bool.or_eq_false_iff, decide_eq_false_iff_not] at mark undivided
    refine ⟨Balanced.single ?_, fun _ => avoids_of_none ?_ outside⟩
    · simp [isInert, mark, undivided]
    · simpa [isComma] using undivided.2
  marked := by
    intro c cs marked unmarked
    rw [unmarked c (by simp)] at marked
    cases marked
  group := by
    intro cs inside unmarked
    obtain ⟨balanced, uncut⟩ := (inside fun c member => unmarked c (by simp [member])).group
    exact ⟨balanced, fun _ => uncut⟩
  bracket := by
    intro cs inside unmarked
    have balanced := inside fun c member => unmarked c (by simp [member])
    refine ⟨(Balanced.single (by decide)).append (balanced.append (Balanced.single (by decide))), fun apart => ?_⟩
    refine avoids_of_none (fun c member => ?_) outside
    rw [isComma, decide_eq_false_iff_not]
    rintro rfl
    exact apart (by simp) member
  loosen := fun outer unmarked => (outer unmarked).1
  inside := by
    intro a b one two unmarked
    obtain ⟨first, second⟩ := unmarked_append.mp unmarked
    exact (one first).append (two second)
  comma := fun _ => Balanced.single inert_comma

/-! ### The parts of a list -/

section Blanks

variable {gap : List Char} (blank : ∀ c ∈ gap, isBlank c = true) {raw : List (List Char)}

include blank

theorem uncut_blanks : avoids isComma outside gap = true ∧ ∀ {n : Nesting}, n.Sound → n.run gap = n := by
  refine ⟨avoids_of_none (fun c member => ?_) outside, fun sound => run_inert sound fun c member => ?_⟩
  · rw [isComma, decide_eq_false_iff_not]
    rintro rfl
    exact absurd (blank ',' member) (by decide)
  · exact inert_of_blank (blank c member)

theorem comma_not_mem {c : Char} (comma : isComma c = true) : c ∉ gap := by
  intro member
  obtain rfl : c = ',' := of_decide_eq_true comma
  exact absurd (blank ',' member) (by decide)

/-- Blanks in front of a text go with its first part. -/
theorem cut_behind_blanks (cut : Cut isComma cs raw) :
    ∃ raw', Cut isComma (gap ++ cs) raw' ∧ raw'.map words = raw.map words := by
  obtain ⟨avoids, stays⟩ := uncut_blanks blank
  have same := stays Sound.outside
  cases cut with
  | last whole closed =>
    exact ⟨_, .last (by rw [avoids_append, same, avoids, whole]; rfl) (by rw [run_append, same, closed]),
      by simp [words_blanks blank]⟩
  | more whole closed cutter others =>
    rw [← List.append_assoc]
    exact ⟨_, .more (by rw [avoids_append, same, avoids, whole]; rfl) (by rw [run_append, same, closed]) cutter others,
      by simp [words_blanks blank]⟩

theorem cut_without_blanks (cut : Cut isComma (gap ++ cs) raw) :
    ∃ raw', Cut isComma cs raw' ∧ raw'.map words = raw.map words := by
  have same := (uncut_blanks blank).2 Sound.outside
  generalize eq : gap ++ cs = whole at cut
  cases cut with
  | last avoided closed =>
    subst eq
    rw [avoids_append, same, Bool.and_eq_true] at avoided
    rw [run_append, same] at closed
    exact ⟨_, .last avoided.2 closed, by simp [words_blanks blank]⟩
  | @more part rest c parts avoided closed cutter others =>
    rcases List.append_eq_append_iff.mp eq with ⟨a, rfl, rfl⟩ | ⟨a, rfl, behind⟩
    · rw [avoids_append, same, Bool.and_eq_true] at avoided
      rw [run_append, same] at closed
      exact ⟨_, .more avoided.2 closed cutter others, by simp [words_blanks blank]⟩
    · rcases a with _ | ⟨d, a⟩
      · obtain rfl : c :: rest = cs := behind
        have cut : Cut isComma ([] ++ c :: rest) ([] :: parts) := .more rfl rfl cutter others
        refine ⟨[] :: parts, cut, ?_⟩
        rw [List.append_nil] at blank
        have none : words [] = [] := rfl
        simp [words_of_blank blank, none]
      · obtain ⟨rfl, -⟩ := List.cons.inj behind
        exact absurd (by simp) (comma_not_mem blank cutter)

theorem cut_before_blanks (cut : Cut isComma (cs ++ gap) raw) :
    ∃ raw', Cut isComma cs raw' ∧ raw'.map words = raw.map words := by
  generalize eq : cs ++ gap = whole at cut
  induction cut generalizing cs with
  | last avoided closed =>
    subst eq
    rw [avoids_append, Bool.and_eq_true] at avoided
    rw [run_append, (uncut_blanks blank).2 (Sound.outside.run cs)] at closed
    exact ⟨_, .last avoided.1 closed, by simp [words_append_blanks blank]⟩
  | @more part rest c parts avoided closed cutter others ih =>
    rcases List.append_eq_append_iff.mp eq.symm with ⟨a, rfl, behind⟩ | ⟨a, rfl, behind⟩
    · rcases a with _ | ⟨d, a⟩
      · rw [List.nil_append] at behind
        exact absurd (behind ▸ List.mem_cons_self) (comma_not_mem blank cutter)
      · obtain ⟨rfl, later⟩ := List.cons.inj behind
        obtain ⟨raw', cut, same⟩ := ih later.symm
        exact ⟨_, .more avoided closed cutter cut, by simp [same]⟩
    · exact absurd (by simp [behind]) (comma_not_mem blank cutter)

end Blanks

theorem words_trim (cs : List Char) : words (trim cs) = words cs := by
  obtain ⟨early, late, blank, blank', whole⟩ := trim_split cs
  conv => rhs; rw [whole, words_append_blanks blank', words_blanks blank]

theorem normalizeSelector_eq_of_words {a b : List Char} (same : words a = words b) :
    normalizeSelector a = normalizeSelector b := by
  rw [normalizeSelector, normalizeSelector, collapsed, collapsed, same]

/-- A list of selectors without marks is cut into these selectors. -/
theorem cut_of_listing
    (listing : Listing (fun cs => Unmarked cs → Balanced cs ∧ Uncut cs) head parts) (unmarked : Unmarked head)
    (apart : ∀ part ∈ parts, '[' ∈ part → ',' ∉ part) :
    ∃ raw, Cut isComma head raw ∧ raw.map words = parts.map words := by
  induction listing with
  | last selector =>
    obtain ⟨balanced, uncut⟩ := selector unmarked
    exact ⟨_, .last (uncut (apart _ (by simp))) balanced.closed, rfl⟩
  | @more part gap gap' head parts selector early late others ih =>
    have blank {gap : List Char} (clean : Unmarked gap) (either : Gap gap) : ∀ c ∈ gap, isBlank c = true := by
      rcases either with slash | blank
      · exact absurd (clean '/' slash) (by decide)
      · exact fun c member => blank_of_plainBlank (blank c member)
    obtain ⟨front, behind⟩ := unmarked_append.mp unmarked
    obtain ⟨clean, clean'⟩ := unmarked_append.mp front
    obtain ⟨-, behind⟩ := (@unmarked_append [','] _).mp behind
    obtain ⟨clean'', behind⟩ := unmarked_append.mp behind
    obtain ⟨balanced, uncut⟩ := selector clean
    obtain ⟨avoided, stays⟩ := uncut_blanks (blank clean' early)
    have stays := stays Sound.outside
    obtain ⟨raw, cut, same⟩ := ih behind fun part member => apart part (by simp [member])
    obtain ⟨raw', cut', same'⟩ := cut_behind_blanks (blank clean'' late) cut
    refine ⟨_, .more ?_ ?_ rfl cut', ?_⟩
    · rw [avoids_append, balanced.closed, avoided, uncut (apart part (by simp))]
      rfl
    · rw [run_append, balanced.closed, stays]
    · simp [words_append_blanks (blank clean' early), same', same]

/-- The parts of the text of such a list are its selectors. -/
theorem splitTopLevel_of_listing
    (listing : Listing (fun cs => Unmarked cs → Balanced cs ∧ Uncut cs) head parts) (unmarked : Unmarked head)
    (apart : ∀ part ∈ parts, '[' ∈ part → ',' ∉ part) :
    ∃ found, splitTopLevel (.char ',') (trim head) = some found ∧ found.map words = parts.map words := by
  obtain ⟨raw, cut, same⟩ := cut_of_listing listing unmarked apart
  obtain ⟨early, late, blank, blank', whole⟩ := trim_split head
  rw [whole] at cut
  obtain ⟨raw', cut', same'⟩ := cut_before_blanks blank' cut
  obtain ⟨raw'', cut'', same''⟩ := cut_without_blanks blank cut'
  refine ⟨raw''.map trim, (split_comma_iff _ _).mpr ⟨raw'', cut'', rfl⟩, ?_⟩
  rw [List.map_map, ← same, ← same', ← same'']
  exact List.map_congr_left fun part _ => words_trim part

/-! ### Where the lists of rules stand -/

/-- Behind the head of a rule its gap begins. -/
theorem dropSelectors_of_readHead {level : Level} {gap start : List Char}
    (found : readHead level cs = some (.rule, head, gap, start)) :
    ∃ parts rest, cs = head ++ rest ∧ readSelectors (cs.length + 1) cs = some (parts, rest) := by
  unfold readHead at found
  split at found
  · cases found
  · rename_i kind stop spot dropped
    dsimp only at found
    split at found
    · simp only [Option.some.injEq, Prod.mk.injEq] at found
      obtain ⟨rfl, rfl, -⟩ := found
      unfold dropHead at dropped
      dsimp only at dropped
      split at dropped
      · split at dropped
        · cases dropped
        · simp at dropped
      · split at dropped
        · obtain ⟨last, selectors, same⟩ := Option.map_eq_some_iff.mp dropped
          cases same
          obtain ⟨⟨parts, rest⟩, read, rfl⟩ := Option.map_eq_some_iff.mp selectors
          obtain ⟨part, rfl, -⟩ := takes_readSelectors taking_all read
          refine ⟨parts, rest, ?_, read⟩
          simp [cut]
        · split at dropped
          · simp at dropped
          · split at dropped
            · split at dropped
              · simp at dropped
              · cases dropped
            · cases dropped
    · cases found

theorem rulesOf_of_readPlain {level : Level} {item : Item} (found : readPlain level cs = some (item, rest))
    (container : Option AtRule) (offset : Nat) : rulesOf container offset item = [] := by
  unfold readPlain at found
  split at found
  · cases found
  · split at found
    · obtain ⟨_, -, same⟩ := Option.map_eq_some_iff.mp found
      cases same
      rfl
    · obtain ⟨_, -, same⟩ := Option.map_eq_some_iff.mp found
      cases same
      rfl

/-- Where a rule begins, the list of its selectors is read. -/
def Leads (cs : List Char) (rule : Rule) : Prop :=
  ∃ head parts rest, rule.selector = trim head ∧ cs.drop rule.start = head ++ rest ∧
    readSelectors ((cs.drop rule.start).length + 1) (cs.drop rule.start) = some (parts, rest)

/-- The rules among items that are read begin with the list of their selectors. -/
theorem Reads.leads {level : Level} {items : List Item} {stop : List Char} (reads : Reads level cs items stop)
    (container : Option AtRule) (front : List Char) (member : rule ∈ rulesFrom container front.length items) :
    Leads (front ++ cs) rule := by
  induction reads generalizing container front with
  | nil => cases member
  | @gap level cs blanks rest stop c items cutting more ih =>
    have whole := cut_append cs (dropGap .outside cs)
    rw [cutting] at whole
    rw [rulesFrom, rulesOf, List.nil_append, Item.text, ← List.length_append] at member
    have later := ih container _ member
    rwa [List.append_assoc, whole] at later
  | @plain level cs rest stop item items here found more ih =>
    rw [rulesFrom, rulesOf_of_readPlain found, List.nil_append, ← List.length_append] at member
    have later := ih container _ member
    rwa [List.append_assoc, readPlain_text _ _ _ _ found] at later
  | @block level cs head gap start rest stop kind inner items here none found inside more ihInner ih =>
    have whole := readHead_text _ _ _ _ _ _ found
    have body := inside.text
    rw [rulesFrom, rulesOf, List.mem_append, List.mem_append] at member
    rcases member with (own | nested) | later
    · split at own
      · rename_i isRule
        subst isRule
        obtain rfl := List.mem_singleton.mp own
        obtain ⟨parts, rest, split, read⟩ := dropSelectors_of_readHead found
        refine ⟨head, parts, rest, rfl, ?_, ?_⟩
        · rw [placeRule, List.drop_left, split]
        · rw [placeRule, List.drop_left]
          exact read
      · cases own
    · have offset : front.length + head.length + gap.length + 1 = (front ++ head ++ gap ++ ['{']).length := by
        simp [Nat.add_assoc]
      rw [offset] at nested
      have deeper := ihInner _ _ nested
      rw [← whole]
      simpa using deeper
    · rw [← List.length_append] at later
      have behind := ih container _ later
      rw [← whole, ← body]
      simpa [Item.text] using behind

theorem leads_of_sound (sound : sheet.hasError = false) (member : rule ∈ sheet.rules) : Leads sheet.source rule := by
  obtain ⟨items, parsed, -⟩ := (hasError_eq_false sheet).mp sound
  rw [Sheet.rules, sheet.read, Content.ofChars, parsed] at member
  obtain ⟨mark, body, read, cutting, rfl, reads⟩ := parse_eq_some_iff.mp parsed
  have whole := cut_append sheet.source (withoutMark sheet.source)
  rw [cutting] at whole
  have placed : rule ∈ rulesFrom none mark.length read := by
    cases mark with
    | nil => exact member
    | cons c mark => simpa [Content.rules, gapItems, rulesFrom, rulesOf, Item.text] using member
  have leads := reads.leads none mark placed
  rwa [whole] at leads

/-! ### Completeness -/

/-- A rule with a list of selectors of the usual form: there are no quotes, backslashes and slashes in it, none of its
selectors is blank, and none has a comma as well as a bracket. -/
structure Usual (sheet : Sheet) (rule : Rule) : Prop where
  unmarked : Unmarked rule.selector
  filled : ∀ part ∈ sheet.listed rule, words part ≠ []
  apart : ∀ part ∈ sheet.listed rule, '[' ∈ part → ',' ∉ part

theorem isMark_blank {c : Char} (blank : isBlank c = true) : isMark c = false := by
  simpa using @of_blank (fun c => !isMark c) (by decide) c blank

theorem unmarked_trim : Unmarked (trim cs) ↔ Unmarked cs := by
  obtain ⟨early, late, blank, blank', whole⟩ := trim_split cs
  have clean {gap : List Char} (blank : ∀ c ∈ gap, isBlank c = true) : Unmarked gap :=
    fun c member => isMark_blank (blank c member)
  conv => rhs; rw [whole, unmarked_append, unmarked_append]
  exact ⟨fun unmarked => ⟨⟨clean blank, unmarked⟩, clean blank'⟩, fun unmarked => unmarked.1.2⟩

/-- The text of a usual list of selectors is cut into the selectors that are listed. -/
theorem Usual.cutAlike (usual : sheet.Usual rule) (sound : sheet.hasError = false) (member : rule ∈ sheet.rules)
    (normal : List Char) : sheet.CutAlike normal rule := by
  obtain ⟨unmarked, filled, apart⟩ := usual
  obtain ⟨head, parts, rest, same, whole, read⟩ := leads_of_sound sound member
  have told : sheet.listed rule = parts := by rw [listed, divide, read]; rfl
  obtain ⟨part, whole', listing⟩ := takes_readSelectors taking_uncut read
  obtain rfl : part = head := List.append_cancel_right (whole'.symm.trans whole)
  rw [same, unmarked_trim] at unmarked
  rw [told] at filled apart
  obtain ⟨found, split, alike⟩ := splitTopLevel_of_listing listing unmarked apart
  -- A part without words would be listed as such.
  have kept : found.filter (fun part => !part.isEmpty) = found := by
    refine List.filter_eq_self.mpr fun part member => ?_
    obtain ⟨part', member', same⟩ := List.mem_map.mp (alike ▸ List.mem_map_of_mem member)
    cases part with
    | nil => exact absurd same (filled part' member')
    | cons c part => rfl
  have cut : rule.selectors = .ok found := by
    rw [Rule.selectors, same, split]
    exact congrArg Except.ok kept
  refine ⟨found, cut, ?_⟩
  have through : normalizeSelector = (fun row => lowerChars ([' '].intercalate row)) ∘ words := rfl
  rw [told, through, ← List.map_map, ← List.map_map, alike]

/-- In a sheet without errors all rules that list a selector are found, and no others, just if the text of each list
can be cut and has this selector among its parts when it is listed; which holds of the usual lists. -/
theorem findsListed_iff (sheet : Sheet) (sound : sheet.hasError = false) (selector : String) :
    (sheet.FindsListed selector ↔
      ∀ rule ∈ sheet.rules, sheet.CutAlike (normalizeSelector selector.toList) rule) ∧
    ∀ rule ∈ sheet.rules, sheet.Usual rule → sheet.CutAlike (normalizeSelector selector.toList) rule :=
  ⟨findsListed_iff_cutAlike sheet selector, fun _ member usual => usual.cutAlike sound member _⟩

private def nestedText : String := ".a, .b \x7b .c[d=e] \x7b \x7d \x7d .A:is(.b, .c), .B \x7b \x7d"

/-- Both rules of a selector are found in a sheet with a nested rule, an attribute and arguments. -/
theorem findsListed_nested : (Sheet.ofText nestedText).FindsListed ".b" := by
  have usual : ∀ rule ∈ (Sheet.ofText nestedText).rules, Usual (.ofText nestedText) rule := by
    have each : (Sheet.ofText nestedText).rules.all (fun rule => rule.selector.all (!isMark ·) &&
        ((Sheet.ofText nestedText).listed rule).all fun part =>
          !(words part).isEmpty && !(part.contains '[' && part.contains ',')) = true := by
      decide +kernel
    intro rule member
    have here := List.all_eq_true.mp each rule member
    simp only [Bool.and_eq_true, List.all_eq_true, Bool.not_eq_true', List.isEmpty_eq_false_iff, forall_and] at here
    exact ⟨here.1, here.2.1, by simpa using here.2.2⟩
  obtain ⟨finds, cuts⟩ := findsListed_iff (.ofText nestedText) (by decide +kernel) ".b"
  exact finds.mpr fun rule member => cuts rule member (usual rule member)

/-! ### A parenthesis that is escaped -/

private def escapedText : String := ".a\\( \x7b top: 0; \x7d .b \x7b top: 0; \x7d"

/-- A list with a parenthesis that is escaped cannot be cut, and no selector of the sheet is found. -/
theorem lookup_fails_at_escape : ∃ sheet : Sheet, sheet.hasError = false ∧
    (∃ rule ∈ sheet.rules, sheet.lists (normalizeSelector ".b".toList) rule) ∧
      sheet.findAll ".b" = .error ⟨".a\\("⟩ := by
  refine ⟨.ofText escapedText, by decide +kernel, by decide +kernel, ?_⟩
  decide +kernel

end Retouch.Sheet
