import Mathlib.Data.List.TakeDrop
import Retouch.Files.Path
import Retouch.Proofs.Text.Case
import Retouch.Service.Watcher

/-!
# Paths as texts

A path that is written down and read again is the same path, if its names are such as a text can give: not
empty, not a single dot, and without slashes. The paths that are read from texts, their joins and their
normal forms are of this kind.

The suffix of a file is cut off its last name, in small letters. A pattern of a star and plain characters names
what ends with these characters as they are written. The two are compared on the text of a path, whose last name
ends with the suffix whatever stands in front of it.

## Main statements

* `Path.ofText_toText`: a path that starts at the root comes back from its text.
* `names_star_iff`: what a star in front of plain characters stands for.
* `lastName_append`: a last name ends with what the path ends with.
* `suffixOfName_cut`: where a suffix begins.
* `Path.names_place`: a file with a suffix keeps its last name when steps back are followed.
-/
namespace Retouch.Files

namespace Path

variable {p folder : Path} {name : String}

/-- Whether a text can give the name. -/
structure Name (name : String) : Prop where
  nonempty : name.toList ≠ []
  forward : name.toList ≠ ['.']
  whole : '/' ∉ name.toList

/-- A path from the root that a text can give. -/
structure Proper (p : Path) : Prop where
  absolute : p.absolute = true
  names : ∀ name ∈ p.names, Name name

theorem not_mem_of_mem_splitOn {separator : Char} {text part : List Char} (member : part ∈ text.splitOn separator) :
    separator ∉ part := by
  induction text generalizing part with
  | nil =>
    obtain rfl := List.mem_singleton.mp member
    exact List.not_mem_nil
  | cons c rest ih =>
    rw [List.splitOn_cons_eq_if_modifyHead] at member
    split at member
    · rcases List.mem_cons.mp member with rfl | later
      · exact List.not_mem_nil
      · exact ih later
    · rename_i other
      -- The character is put in front of the first part, and is not the separator.
      cases parts : rest.splitOn separator with
      | nil => exact absurd parts (List.splitOn_ne_nil _ _)
      | cons first parts' =>
        rw [parts] at ih member
        rcases List.mem_cons.mp member with rfl | later
        · simp only [List.mem_cons, not_or]
          exact ⟨fun same => other (by simp [same]), ih List.mem_cons_self⟩
        · exact ih (List.mem_cons_of_mem _ later)

theorem name_of_ofText {text : String} (member : name ∈ (ofText text).names) : Name name := by
  obtain ⟨part, found, rfl⟩ := List.mem_map.mp member
  obtain ⟨split, named⟩ := List.mem_filter.mp found
  simp only [Bool.and_eq_true, Bool.not_eq_true', bne_iff_ne, List.isEmpty_eq_false_iff] at named
  refine ⟨?_, ?_, ?_⟩ <;> rw [String.toList_ofList]
  · exact named.1
  · exact named.2
  · exact not_mem_of_mem_splitOn split

theorem mem_follow {here names : List String} (member : name ∈ follow here names) : name ∈ here ∨ name ∈ names := by
  induction names generalizing here with
  | nil => exact .inl member
  | cons next rest ih =>
    unfold follow at member
    split at member
    · rcases ih member with before | later
      · exact .inl (List.dropLast_subset here before)
      · exact .inr (List.mem_cons_of_mem _ later)
    · rcases ih member with before | later
      · rcases List.mem_append.mp before with before | new
        · exact .inl before
        · exact .inr (List.mem_cons.mpr (.inl (List.mem_singleton.mp new)))
      · exact .inr (List.mem_cons_of_mem _ later)

theorem Proper.normal (proper : Proper p) : Proper p.normal := by
  refine ⟨proper.absolute, fun name member => ?_⟩
  rcases mem_follow member with none | member
  · cases none
  · exact proper.names name member

theorem Proper.join (proper : Proper folder) (text : String) : Proper (folder.join (ofText text)) := by
  unfold Path.join
  split
  · rename_i absolute
    exact ⟨absolute, fun name member => name_of_ofText member⟩
  · refine ⟨proper.absolute, fun name member => ?_⟩
    rcases List.mem_append.mp member with outer | inner
    · exact proper.names name outer
    · exact name_of_ofText inner

/-- A name is the only one of its text. -/
theorem pathNames_name (named : Name name) : pathNames name.toList = [name.toList] := by
  rw [pathNames, List.splitOn_eq_singleton named.whole]
  simp [named.nonempty, named.forward]

/-- A name leads on from a folder. -/
theorem join_name (named : Name name) (folder : Path) : folder.join (ofText name) = folder.child name := by
  have relative : (name.toList.head? == some '/') = false := by
    have whole := named.whole
    cases chars : name.toList with
    | nil => rfl
    | cons c rest =>
      rw [chars] at whole
      simp only [List.mem_cons, not_or] at whole
      simp only [List.head?_cons, beq_eq_false_iff_ne, ne_eq, Option.some.injEq]
      exact fun same => whole.1 same.symm
  unfold join ofText child
  rw [relative, pathNames_name named]
  simp

/-- A path that starts at the root comes back from its text. -/
theorem ofText_toText (proper : Proper p) : ofText p.toText = p := by
  obtain ⟨absolute, names⟩ := p
  obtain rfl : absolute = true := proper.absolute
  have text : (toText ⟨true, names⟩).toList = '/' :: ['/'].intercalate (names.map String.toList) := by
    simp only [toText, if_true, String.toList_append, String.toList_intercalate]
    rfl
  unfold ofText pathNames
  rw [text]
  -- The slash in front leaves an empty name, which does not count.
  have front : ('/' :: ['/'].intercalate (names.map String.toList)).splitOn '/' =
      [] :: (['/'].intercalate (names.map String.toList)).splitOn '/' :=
    List.splitOn_append_cons_self_of_not_mem (show '/' ∉ ([] : List Char) from List.not_mem_nil) _
  rw [front]
  cases names with
  | nil => rfl
  | cons first rest =>
    have whole : ∀ part ∈ (first :: rest).map String.toList, '/' ∉ part := by
      intro part member
      obtain ⟨name, there, rfl⟩ := List.mem_map.mp member
      exact (proper.names name there).whole
    have kept : ((first :: rest).map String.toList).filter (fun name => !name.isEmpty && name != ['.']) =
        (first :: rest).map String.toList := by
      rw [List.filter_eq_self]
      intro part member
      obtain ⟨name, there, rfl⟩ := List.mem_map.mp member
      have named := proper.names name there
      simp [named.nonempty, named.forward]
    rw [List.splitOn_intercalate '/' whole (by simp), List.filter_cons_of_neg (by simp), kept, List.map_map]
    simp

end Path

end Retouch.Files

namespace Retouch

namespace Files

/-! ### Patterns of a star and plain characters -/

section patterns

open PatternPart

/-- The character stands for itself in patterns. -/
def IsPlain (c : Char) : Prop := c ≠ '*' ∧ c ≠ '?' ∧ c ≠ '['

theorem parseFrom_plain {cs : List Char} (plain : ∀ c ∈ cs, IsPlain c) {fuel : Nat} (enough : cs.length ≤ fuel) :
    Pattern.parseFrom fuel cs = cs.map .char := by
  induction cs generalizing fuel with
  | nil => cases fuel <;> rfl
  | cons c rest ih =>
    obtain ⟨noStar, noMark, noBracket⟩ := plain c List.mem_cons_self
    cases fuel with
    | zero => cases enough
    | succ fuel =>
      have rest_eq := ih (fun d member => plain d (List.mem_cons_of_mem _ member)) (Nat.le_of_succ_le_succ enough)
      unfold Pattern.parseFrom
      split
      · contradiction
      · contradiction
      · rename_i found
        exact absurd (List.cons.inj found).1 noStar
      · rename_i found
        exact absurd (List.cons.inj found).1 noMark
      · rename_i found
        exact absurd (List.cons.inj found).1 noBracket
      · rename_i same found
        obtain ⟨rfl, rfl⟩ := List.cons.inj found
        obtain rfl := Nat.succ.inj same
        rw [List.map_cons, rest_eq]

theorem names_chars_iff {cs text : List Char} : Pattern.names (cs.map .char) text = true ↔ text = cs := by
  induction cs generalizing text with
  | nil => simp [Pattern.names]
  | cons c rest ih =>
    cases text with
    | nil => simp [Pattern.names]
    | cons d text =>
      rw [List.map_cons, Pattern.names, Bool.and_eq_true, ih, List.cons.injEq]
      · simp only [PatternPart.accepts, decide_eq_true_eq]
        exact and_congr_left fun _ => eq_comm
      · nofun

theorem anyTail_iff {holds : List Char → Bool} {cs : List Char} :
    anyTail holds cs = true ↔ ∃ tail, tail <:+ cs ∧ holds tail = true := by
  induction cs with
  | nil => simp [anyTail]
  | cons c rest ih =>
    rw [anyTail, Bool.or_eq_true, ih]
    constructor
    · rintro (here | ⟨tail, inside, held⟩)
      · exact ⟨_, List.suffix_refl _, here⟩
      · exact ⟨tail, inside.trans (List.suffix_cons c rest), held⟩
    · rintro ⟨tail, inside, held⟩
      rcases List.suffix_cons_iff.mp inside with rfl | inside
      · exact .inl held
      · exact .inr ⟨tail, inside, held⟩

/-- A star in front of plain characters names what ends with them. -/
theorem names_star_iff {pattern : String} {plain text : List Char} (shape : pattern.toList = '*' :: plain)
    (each : ∀ c ∈ plain, IsPlain c) : (Pattern.parse pattern).names text = true ↔ plain <:+ text := by
  have parsed : Pattern.parse pattern = .many :: plain.map .char := by
    rw [Pattern.parse, shape, List.length_cons, Pattern.parseFrom, parseFrom_plain each (Nat.le_refl _)]
  rw [parsed, Pattern.names, anyTail_iff]
  constructor
  · rintro ⟨tail, inside, named⟩
    obtain rfl := names_chars_iff.mp named
    exact inside
  · intro inside
    exact ⟨plain, inside, names_chars_iff.mpr rfl⟩

end patterns

/-! ### Suffixes of names -/

/-- A suffix other than nothing begins at the last dot of the name, which neither begins nor ends the name. -/
theorem suffixOfName_cut {name : List Char} (some_ : suffixOfName name ≠ []) :
    ∃ stem ext, name = stem ++ '.' :: ext ∧ suffixOfName name = '.' :: ext ∧ '.' ∉ ext ∧ ext ≠ [] := by
  have split := List.takeWhile_append_dropWhile (p := (· ≠ '.')) (l := name.reverse)
  have back : ∀ c ∈ name.reverse.takeWhile (· ≠ '.'), c ≠ '.' := by
    intro c member
    simpa using List.all_eq_true.mp List.all_takeWhile c member
  unfold suffixOfName at some_ ⊢
  rw [List.span_eq_takeWhile_dropWhile] at some_ ⊢
  cases behind : name.reverse.dropWhile (· ≠ '.') with
  | nil =>
    rw [behind] at some_
    exact absurd rfl some_
  | cons c front =>
    have dot : c = '.' := by
      have first := List.head?_dropWhile_not (· ≠ '.') name.reverse
      rw [behind] at first
      simpa using first
    subst dot
    rw [behind] at some_ split
    generalize name.reverse.takeWhile (· ≠ '.') = ext at *
    have both : (ext.isEmpty || front.isEmpty) = false := by
      cases empty : ext.isEmpty || front.isEmpty with
      | false => rfl
      | true =>
        simp only [empty, if_true] at some_
        exact absurd rfl some_
    have whole := congrArg List.reverse split
    rw [List.reverse_reverse, List.reverse_append, List.reverse_cons, List.append_assoc] at whole
    refine ⟨front.reverse, ext.reverse, whole.symm, ?_, ?_, ?_⟩
    · simp only [both, Bool.false_eq_true, if_false]
    · intro member
      exact back '.' (List.mem_reverse.mp member) rfl
    · intro none
      simp [List.reverse_eq_nil_iff.mp none] at both

/-! ### Last names -/

/-- The last part between separators ends with what the text ends with. -/
theorem splitOn_append {separator : Char} {tail : List Char} (whole : separator ∉ tail) (front : List Char) :
    ∃ parts part, (front ++ tail).splitOn separator = parts ++ [part ++ tail] := by
  induction front with
  | nil => exact ⟨[], [], by simpa using List.splitOn_eq_singleton whole⟩
  | cons c front ih =>
    obtain ⟨parts, part, split⟩ := ih
    rw [List.cons_append, List.splitOn_cons_eq_if_modifyHead, split]
    split
    · exact ⟨[] :: parts, part, rfl⟩
    · cases parts with
      | nil => exact ⟨[], c :: part, rfl⟩
      | cons first parts => exact ⟨(c :: first) :: parts, part, rfl⟩

/-- A last name ends with what the path ends with, if this is more than a dot. -/
theorem lastName_append {tail : List Char} (whole : '/' ∉ tail) (long : 2 ≤ tail.length) (front : List Char) :
    ∃ part, lastName (front ++ tail) = part ++ tail := by
  obtain ⟨parts, part, split⟩ := splitOn_append whole front
  have kept : (!(part ++ tail).isEmpty && (part ++ tail) != ['.']) = true := by
    have length : 2 ≤ (part ++ tail).length := by
      rw [List.length_append]
      omega
    generalize part ++ tail = name at length
    cases name with
    | nil => simp at length
    | cons c rest =>
      cases rest with
      | nil => simp at length
      | cons d rest => simp
  refine ⟨part, ?_⟩
  rw [lastName, pathNames, split, List.filter_append, List.filter_cons, if_pos kept, List.filter_nil]
  simp

namespace Path

theorem follow_append (here names : List String) {name : String} (forward : name ≠ back) :
    follow here (names ++ [name]) = follow here names ++ [name] := by
  induction names generalizing here with
  | nil =>
    rw [List.nil_append]
    unfold follow
    rw [if_neg forward]
    rfl
  | cons first rest ih =>
    rw [List.cons_append, follow, follow, ih, ih]
    split <;> rfl

/-- The place that a path leads to from a folder. -/
def place (folder path : Path) : Path := (folder.join path).normal

/-- A file with a suffix keeps its last name when steps back are followed. -/
theorem names_place {file : String} (some_ : suffixOfName (Files.lastName file.toList) ≠ []) (folder : Path) :
    ∃ front, (folder.place (ofText file)).names = front ++ [String.ofList (Files.lastName file.toList)] := by
  obtain ⟨front, last, names⟩ : ∃ front last, pathNames file.toList = front ++ [last] := by
    rcases List.eq_nil_or_concat (pathNames file.toList) with none | ⟨front, last, found⟩
    · have empty : Files.lastName file.toList = [] := by rw [Files.lastName, none]; rfl
      rw [empty] at some_
      exact absurd rfl some_
    · exact ⟨front, last, by rw [found, List.concat_eq_append]⟩
  have last_eq : Files.lastName file.toList = last := by simp [Files.lastName, names]
  rw [last_eq] at some_ ⊢
  -- Two dots are no suffix.
  have forward : String.ofList last ≠ back := by
    intro same
    have dots : last = ['.', '.'] := by simpa [back] using congrArg String.toList same
    rw [dots] at some_
    exact some_ (by decide)
  have joined : ∃ outer, (folder.join (ofText file)).names = outer ++ [String.ofList last] := by
    unfold join
    split
    · exact ⟨front.map String.ofList, by simp [ofText, names]⟩
    · exact ⟨folder.names ++ front.map String.ofList, by simp [ofText, names]⟩
  obtain ⟨outer, joined⟩ := joined
  refine ⟨follow [] outer, ?_⟩
  unfold place normal
  rw [joined]
  exact follow_append [] outer forward

end Path

end Files

end Retouch
