import Retouch.Text.Case

/-!
# Paths

A path leads by names from the root or from the working folder; two dots lead back. The suffix of a path
is the part of its last name from the last dot on; a dot that begins or ends the name starts no suffix.
Main statements: `normal_normal` and `not_mem_normal`, a path in normal form leads nowhere back and stays
as it is.
-/
namespace Retouch.Files

/-- The names of a path: the parts between slashes, without empty ones and single dots. -/
def pathNames (path : List Char) : List (List Char) :=
  (path.splitOn '/').filter fun name => !name.isEmpty && name != ['.']

def lastName (path : List Char) : List Char := (pathNames path).getLastD []

/-- The suffix with its dot, or nothing. -/
def suffixOfName (name : List Char) : List Char :=
  match name.reverse.span (· ≠ '.') with
  | (back, _ :: front) => if back.isEmpty || front.isEmpty then [] else '.' :: back.reverse
  | (_, []) => []

/-- The suffix of a path in small letters. -/
def suffix (path : String) : String :=
  String.ofList (Text.lowerChars (suffixOfName (lastName path.toList)))

/-- The suffix of the files that hold style rules. -/
def styleSuffix : String := ".css"

/-- A path as it is given. -/
structure Path where
  absolute : Bool
  names : List String
  deriving DecidableEq, Repr, Inhabited

namespace Path

def back : String := ".."

def ofText (text : String) : Path :=
  ⟨text.toList.head? == some '/', (pathNames text.toList).map String.ofList⟩

def toText (p : Path) : String :=
  let names := String.intercalate "/" p.names
  if p.absolute then "/" ++ names else if p.names.isEmpty then "." else names

/-- A path that starts in a folder, unless it starts at the root. -/
def join (folder p : Path) : Path := if p.absolute then p else ⟨folder.absolute, folder.names ++ p.names⟩

def child (folder : Path) (name : String) : Path := ⟨folder.absolute, folder.names ++ [name]⟩

def lastName (p : Path) : String := p.names.getLastD ""

/-- Follows names from `here` on; two dots drop the last name. -/
def follow (here : List String) : List String → List String
  | [] => here
  | name :: rest => if name = back then follow here.dropLast rest else follow (here ++ [name]) rest

/-- The same path without steps back; those beyond the root are lost. -/
def normal (p : Path) : Path := ⟨p.absolute, follow [] p.names⟩

/-- Whether a path leads to a folder or into it, both in normal form. -/
def contains (folder p : Path) : Bool := folder.names.isPrefixOf p.names

/-- The path from a folder to what lies in it. -/
def under (folder p : Path) : String :=
  toText ⟨false, p.names.drop folder.names.length⟩

theorem not_mem_follow (here names : List String) (clean : back ∉ here) :
    back ∉ follow here names := by
  induction names generalizing here with
  | nil => exact clean
  | cons name rest ih =>
    unfold follow
    split
    · exact ih _ fun found => clean (List.dropLast_subset here found)
    · rename_i other
      apply ih
      simp only [List.mem_append, List.mem_singleton, not_or]
      exact ⟨clean, fun eq => other eq.symm⟩

/-- A path in normal form has no step back. -/
theorem not_mem_normal (p : Path) : back ∉ p.normal.names :=
  not_mem_follow [] p.names (by simp)

theorem follow_of_clean (here names : List String) (clean : back ∉ names) :
    follow here names = here ++ names := by
  induction names generalizing here with
  | nil => simp [follow]
  | cons name rest ih =>
    simp only [List.mem_cons, not_or] at clean
    unfold follow
    rw [if_neg fun eq => clean.1 eq.symm, ih _ clean.2]
    simp

/-- The normal form of a normal form is itself. -/
theorem normal_normal (p : Path) : p.normal.normal = p.normal := by
  have same : follow [] p.normal.names = p.normal.names := by
    rw [follow_of_clean _ _ (not_mem_normal p)]
    simp
  unfold normal at same ⊢
  simp [same]

end Path

/-- A file's name without its suffix. -/
def stem (name : String) : String :=
  String.ofList (name.toList.take (name.toList.length - (suffixOfName name.toList).length))

end Retouch.Files
