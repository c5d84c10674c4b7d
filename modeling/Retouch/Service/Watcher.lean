import Retouch.Project.Basic

/-!
# Watching the sources

Files change outside the program too. For every change of a file that may be a source, what was read of it
is forgotten. Which files these are is said by patterns: those of the paths to pass over, and those of the
names to look at. A pattern names many texts: a star stands for any characters, a question mark for one, and
brackets for one of several characters or ranges, or for none of them after an exclamation mark.
-/
namespace Retouch.Files

/-- One character or a range of characters. -/
structure CharRange where
  low : Char
  high : Char
  deriving DecidableEq, Repr

inductive PatternPart where
  | many
  | one
  | char (c : Char)
  | among (ranges : List CharRange)
  | except (ranges : List CharRange)
  deriving DecidableEq, Repr

abbrev Pattern := List PatternPart

def CharRange.contains (r : CharRange) (c : Char) : Bool := r.low ≤ c && c ≤ r.high

/-- The ranges between brackets; a dash that stands at an end or behind a range is a character. -/
def rangesOf : List Char → List CharRange
  | low :: '-' :: high :: rest => ⟨low, high⟩ :: rangesOf rest
  | c :: rest => ⟨c, c⟩ :: rangesOf rest
  | [] => []

/-- Cuts at the bracket that closes; one that comes first is a character. -/
def closeBracket? (cs : List Char) : Option (List Char × List Char) :=
  match cs with
  | [] => none
  | first :: rest =>
    match rest.span (· ≠ ']') with
    | (_, []) => none
    | (inner, _ :: after) => some (first :: inner, after)

/-- The bracket part behind an opening bracket, and what follows it. -/
def bracket? (cs : List Char) : Option (PatternPart × List Char) :=
  match cs with
  | '!' :: rest => (closeBracket? rest).map fun (inner, after) => (.except (rangesOf inner), after)
  | cs => (closeBracket? cs).map fun (inner, after) => (.among (rangesOf inner), after)

/-- Reads a pattern; `fuel` bounds its length. -/
def Pattern.parseFrom : Nat → List Char → Pattern
  | 0, _ => []
  | _ + 1, [] => []
  | fuel + 1, '*' :: rest => .many :: parseFrom fuel rest
  | fuel + 1, '?' :: rest => .one :: parseFrom fuel rest
  | fuel + 1, '[' :: rest =>
    match bracket? rest with
    | some (part, after) => part :: parseFrom fuel after
    | none => .char '[' :: parseFrom fuel rest
  | fuel + 1, c :: rest => .char c :: parseFrom fuel rest

def Pattern.parse (text : String) : Pattern := parseFrom text.toList.length text.toList

/-- Whether a part stands for a character. -/
def PatternPart.accepts : PatternPart → Char → Bool
  | .many, _ => true
  | .one, _ => true
  | .char expected, c => expected = c
  | .among ranges, c => ranges.any (·.contains c)
  | .except ranges, c => !ranges.any (·.contains c)

/-- Whether some end of a text holds. -/
def anyTail (holds : List Char → Bool) : List Char → Bool
  | [] => holds []
  | c :: rest => holds (c :: rest) || anyTail holds rest

/-- Whether a text is one that the pattern names. -/
def Pattern.names : Pattern → List Char → Bool
  | [], cs => cs.isEmpty
  | .many :: rest, cs => anyTail (names rest) cs
  | _ :: _, [] => false
  | part :: rest, c :: cs => part.accepts c && names rest cs

end Retouch.Files

namespace Retouch.Service

structure WatchRules where
  passed : List String := ["node_modules/*", ".git/*", ".alara/*", "dist/*", "build/*", "*.tmp"]
  watched : List String := ["*.tsx", "*.ts", "*.jsx", "*.js", "*.css"]
  deriving DecidableEq, Repr

def namedBy (patterns : List String) (text : List Char) : Bool :=
  patterns.any fun pattern => (Files.Pattern.parse pattern).names text

/-- Whether changes at a path of the project are passed over. -/
def WatchRules.ignores (rules : WatchRules) (path : String) : Bool :=
  let slashed := path.toList.map fun c => if c = '\\' then '/' else c
  namedBy rules.passed slashed || !namedBy rules.watched (Files.lastName slashed)

/-- A change of a file or folder, with the paths that it concerns. -/
structure FileEvent where
  ofFolder : Bool
  paths : List Files.Path
  deriving Repr

structure Watcher where
  rules : WatchRules := {}
  /-- How many changes of sources were seen. -/
  processed : Nat := 0
  deriving Repr

/-- Takes notice of a change at one path. -/
def Watcher.touch (watcher : Watcher) (project : Project) (path : Files.Path) : Watcher × Project :=
  let place := (project.root.join path).normal
  if project.root.contains place && !watcher.rules.ignores (project.root.under place) then
    ({ watcher with processed := watcher.processed + 1 },
      { project with cache := project.cache.drop place })
  else (watcher, project)

def Watcher.touchAll (watcher : Watcher) (project : Project) : List Files.Path → Watcher × Project
  | [] => (watcher, project)
  | path :: rest =>
    let (watcher, project) := watcher.touch project path
    watcher.touchAll project rest

/-- Takes notice of a change; those of folders count for nothing. -/
def Watcher.observe (watcher : Watcher) (project : Project) (event : FileEvent) : Watcher × Project :=
  if event.ofFolder then (watcher, project) else watcher.touchAll project event.paths

end Retouch.Service
