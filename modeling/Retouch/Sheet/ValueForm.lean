import Retouch.Sheet.Lexis

/-!
# The form of declared values

Which texts can stand behind the colon of a declaration: one value or more, with a comma at most
between two of them. A value is a word, number, color code, string, function call, bracketed list or
parenthesised value, or several of these joined by operators.
-/
namespace Retouch.Sheet

/-- The rest behind digits with a point or an exponent, or with neither. -/
def dropDigits (cs : List Char) : Option (List Char) :=
  let whole := cs.dropWhile Char.isDigit
  let fraction := match whole with
    | '.' :: d :: more => if d.isDigit then some (more.dropWhile Char.isDigit) else none
    | _ => none
  let rest := fraction.getD whole
  let exponent := match rest with
    | e :: '-' :: d :: more =>
      if (e = 'e' || e = 'E') && d.isDigit then some (more.dropWhile Char.isDigit) else none
    | e :: d :: more =>
      if (e = 'e' || e = 'E') && d.isDigit then some (more.dropWhile Char.isDigit) else none
    | _ => none
  if cs.head?.any Char.isDigit || fraction.isSome || exponent.isSome then some (exponent.getD rest)
  else none

/-- The rest behind a number with its sign and without its unit. -/
def dropNumber : List Char → Option (List Char)
  | '+' :: rest => dropDigits rest
  | '-' :: rest => dropDigits rest
  | cs => dropDigits cs

def isUnitChar (c : Char) : Bool := isLetter c || c = '%'


def isHexDigit (c : Char) : Bool :=
  c.isDigit || ('a' ≤ c && c ≤ 'f') || ('A' ≤ c && c ≤ 'F')

/-- The rest behind the three to eight digits of a color code. -/
def dropColorCode (cs : List Char) : Option (List Char) :=
  let digits := (cs.takeWhile isHexDigit).length
  if digits < 3 then none else some (cs.drop (min digits 8))

/-- The word that lifts a declaration above others. -/
def importance : List Char := "!important".toList

def isOperator (c : Char) : Bool := c = '+' || c = '-' || c = '*' || c = '/'

/-- What a value without brackets or quotes is. -/
inductive Atom where
  | number
  | name
  | word
  deriving DecidableEq, Repr

/-- The number, name or word that a text begins with, whichever is longest, and the rest behind it. -/
def dropAtom (cs : List Char) : Option (Atom × List Char) :=
  let longer (best : Option (Atom × List Char)) (kind : Atom) (rest : Option (List Char)) :=
    match best, rest with
    | some (_, held), some rest => if rest.length < held.length then some (kind, rest) else best
    | none, some rest => some (kind, rest)
    | _, none => best
  longer (longer (longer none .number (dropNumber cs)) .name (dropName cs)) .word (dropWord cs)

/-- What can follow a value at a spot, apart from operators. -/
def dropNext (behind : Spot) (cs : List Char) : Option (Atom × List Char) :=
  match behind with
  | .series => dropAtom cs
  | .imported => (dropName cs).map (.name, ·)
  | _ => none

/-- The rest behind a unit. A longer word that can follow is no unit. -/
def dropUnit (behind : Spot) (cs : List Char) : List Char :=
  let near := dropJoint behind cs
  let unit := near.dropWhile isUnitChar
  let isLonger (next : Atom × List Char) : Bool := next.2.length < unit.length
  if near.head?.any isUnitChar && !(dropNext behind near).any isLonger then unit else cs

mutual

/-- The rest behind one value without operators, and what follows stands at the spot `behind`. -/
def dropPrimary (behind : Spot) : Nat → List Char → Option (List Char)
  | 0, _ => none
  | fuel + 1, cs =>
    match dropAtom cs with
    | some (.number, rest) => some (dropUnit behind rest)
    | some (.word, rest) => some rest
    | some (.name, rest) =>
      match dropJoint behind rest with
      | '(' :: inner => dropArguments fuel (dropGap .value inner)
      | _ => some rest
    | none =>
      match cs with
      | '#' :: rest => dropColorCode (dropJoint .outside rest)
      | '[' :: rest => dropList fuel (dropGap .value rest)
      | '(' :: rest =>
        (dropChain .single fuel (dropGap .value rest)).bind fun rest =>
          match dropGap .single rest with
          | ')' :: rest => some rest
          | _ => none
      | _ =>
        if importance.isPrefixOf cs then some (cs.drop importance.length) else dropString cs

/-- The rest behind values with operators between them. -/
def dropChain (behind : Spot) : Nat → List Char → Option (List Char)
  | 0, _ => none
  | fuel + 1, cs =>
    (dropPrimary behind fuel cs).bind fun rest =>
      match dropGap behind rest with
      | c :: more =>
        if isOperator c && (dropNext behind (c :: more)).isNone then
          dropChain behind fuel (dropGap .value more)
        else some rest
      | [] => some rest

/-- The rest behind one value or more. -/
def dropSeries : Nat → List Char → Option (List Char)
  | 0, _ => none
  | fuel + 1, cs =>
    (dropChain .series fuel cs).map fun rest => (dropSeries fuel (dropGap .series rest)).getD rest

/-- The rest behind the arguments of a function, whose parenthesis is open. -/
def dropArguments : Nat → List Char → Option (List Char)
  | 0, _ => none
  | fuel + 1, cs =>
    match cs with
    | ')' :: rest => some rest
    | _ => dropGroups fuel cs

/-- The rest behind arguments of which there is one at least. -/
def dropGroups : Nat → List Char → Option (List Char)
  | 0, _ => none
  | fuel + 1, cs =>
    (dropSeries fuel cs).bind fun rest =>
      match dropGap .series rest with
      | ')' :: rest => some rest
      | c :: rest => if c = ',' || c = ';' then dropGroups fuel (dropGap .value rest) else none
      | [] => none

/-- The rest behind a bracketed list, whose bracket is open. -/
def dropList : Nat → List Char → Option (List Char)
  | 0, _ => none
  | fuel + 1, cs =>
    (dropChain .single fuel cs).bind fun rest =>
      match dropGap .single rest with
      | ']' :: rest => some rest
      | ',' :: rest => dropList fuel (dropGap .value rest)
      | _ => none

end

/-- Enough fuel for the values of a text. -/
def valueFuel (cs : List Char) : Nat := 8 * cs.length + 8

/-- The rest behind one value with its operators. -/
def dropValue (behind : Spot) (cs : List Char) : Option (List Char) :=
  dropChain behind (valueFuel cs) cs

/-- The rest behind the values of a declaration, and where the mark of importance begins that comes last.
`fuel` bounds the number of values. -/
def dropDeclared (mark : Option (List Char)) : Nat → List Char → Option (List Char × Option (List Char))
  | 0, _ => none
  | fuel + 1, cs =>
    match dropValue .series cs with
    | none => none
    | some rest =>
      let isMark := importance.isPrefixOf cs && rest.length + importance.length = cs.length
      let mark := if isMark then some cs else mark
      match dropGap .series rest with
      | ',' :: more => dropDeclared mark fuel (dropGap .value more)
      | more =>
        match dropDeclared mark fuel more with
        | some found => some found
        | none => some (rest, mark)

end Retouch.Sheet
