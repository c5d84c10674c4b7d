import Retouch.Text.Blank

/-!
# Words, strings and references of markup sources

The parts of a program that can hide a tag, strings, comments and patterns, and the names that occur in
tags.
-/
namespace Retouch.Markup

def isBlankChar (c : Char) : Bool := Text.isWhiteSpace c || c.toNat = 0xfeff

/-- Letters of any script, underscores and dollar signs. -/
def isWordStart (c : Char) : Bool :=
  c.isAlpha || c = '_' || c = '$' || (128 ≤ c.toNat && !isBlankChar c)

def isWordChar (c : Char) : Bool := isWordStart c || c.isDigit

/-- A dash may stand inside the names of tags and attributes. -/
def isTagNameChar (c : Char) : Bool := isWordChar c || c = '-'

/-- Cuts behind the inside and the end of a quoted text; a backslash guards the next character, and a
line feed ends it in vain. -/
def cutQuoted (quote : Char) : List Char → Option (List Char × List Char)
  | [] => none
  | '\\' :: c :: rest => (cutQuoted quote rest).map fun (front, back) => ('\\' :: c :: front, back)
  | c :: rest =>
    if c = quote then some ([c], rest)
    else if c = '\n' then none
    else (cutQuoted quote rest).map fun (front, back) => (c :: front, back)

/-- Cuts behind a pattern between slashes; inside brackets a slash does not end it. -/
def cutPattern (bracket : Bool) : List Char → Option (List Char × List Char)
  | [] => none
  | '\\' :: c :: rest =>
    if c = '\n' then none
    else (cutPattern bracket rest).map fun (front, back) => ('\\' :: c :: front, back)
  | c :: rest =>
    if c = '\n' then none
    else if c = '/' && !bracket then some ([c], rest)
    else (cutPattern (c = '[' || (bracket && c != ']')) rest).map fun (front, back) =>
      (c :: front, back)

/-- Cuts behind the mark that closes a comment. -/
def cutComment : List Char → Option (List Char × List Char)
  | '*' :: '/' :: rest => some (['*', '/'], rest)
  | c :: rest => (cutComment rest).map fun (front, back) => (c :: front, back)
  | [] => none

/-- Cuts behind the string of an attribute, which knows no guarding backslash. -/
def cutAttribute (quote : Char) : List Char → Option (List Char × List Char)
  | [] => none
  | c :: rest =>
    if c = quote then some ([c], rest)
    else (cutAttribute quote rest).map fun (front, back) => (c :: front, back)

def isHexChar (c : Char) : Bool :=
  c.isDigit || ('a' ≤ c && c ≤ 'f') || ('A' ≤ c && c ≤ 'F')

/-- Between one and `most` characters of a class, and a semicolon behind them. -/
def cutUpTo (most : Nat) (holds : Char → Bool) (cs : List Char) : Option (List Char × List Char) :=
  let front := cs.takeWhile holds
  match cs.dropWhile holds with
  | ';' :: rest =>
    if front.isEmpty || most < front.length then none else some (front ++ [';'], rest)
  | _ => none

/-- Cuts behind a reference to a character: by its number in either base, or by its name. -/
def cutReference : List Char → Option (List Char × List Char)
  | '&' :: '#' :: x :: rest =>
    if x = 'x' || x = 'X' then
      (cutUpTo 6 isHexChar rest).map fun (front, back) => ('&' :: '#' :: x :: front, back)
    else (cutUpTo 5 Char.isDigit (x :: rest)).map fun (front, back) => ('&' :: '#' :: front, back)
  | '&' :: rest => (cutUpTo 30 Char.isAlpha rest).map fun (front, back) => ('&' :: front, back)
  | _ => none

/-- Whether every ampersand of an attribute that a letter or number sign follows begins a reference. -/
def hasGoodReferences : List Char → Bool
  | [] => true
  | c :: rest =>
    (c != '&' ||
      match rest with
      | d :: _ => !(d.isAlpha || d = '#') || (cutReference (c :: rest)).isSome
      | [] => true) && hasGoodReferences rest

/-- The blanks of program text. -/
def blanksOf (cs : List Char) : List Char := cs.takeWhile isBlankChar

def withoutBlanks (cs : List Char) : List Char := cs.dropWhile isBlankChar

/-- The words behind which a program goes on with an expression. -/
def leadingWords : List String := [
  "return", "typeof", "case", "in", "of", "instanceof", "new", "delete", "void", "throw", "else",
  "do", "yield", "await", "default", "extends"]

/-! ## Texts of elements -/

/-- The characters that end a text of an element. -/
def endsText (c : Char) : Bool := c = '<' || c = '>' || c = '{' || c = '}' || c = '&'

/-- The blanks that count for nothing behind a line feed; those that forbid a line break are not among
them. -/
def isSpacing (c : Char) : Bool :=
  Text.isWhiteSpace c && !(c.toNat = 0xa0 || c.toNat = 0x2007 || c.toNat = 0x202f || c.toNat = 0x85)

/-- Whether characters are a text: they are not when they only break lines and indent. `fresh` tells
whether a line has just begun. -/
def isText (fresh : Bool) : List Char → Bool
  | [] => false
  | c :: rest =>
    if c = '\n' then isText true rest else !(fresh && isSpacing c) || isText true rest

end Retouch.Markup
