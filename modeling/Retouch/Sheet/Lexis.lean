import Retouch.Text.Word
import Retouch.Text.Blank

/-!
# The characters of a stylesheet

Names, words, comments and strings. A comment runs to its closing mark, or from two slashes to the end of
the line; where a value can stand, two slashes can also begin a word, as in an address. Two marks of a
selector can only be told by what follows: blanks stand for descent when another simple selector comes
behind them, and a colon belongs to a pseudo-class, and not to a declaration, when a brace opens before the
next semicolon or closing brace. Main statement: `cut_append`, a text that is cut in two is not changed.
-/
namespace Retouch.Sheet

/-- The blanks of all scripts that allow a line to be broken. -/
def isWideBlank (c : Char) : Bool :=
  let code := c.toNat
  (9 ≤ code && code ≤ 13) || code == 32 || code == 0x1680 || (0x2000 ≤ code && code ≤ 0x2006) ||
    (0x2008 ≤ code && code ≤ 0x200a) || code == 0x2028 || code == 0x2029 || code == 0x205f ||
    code == 0x3000

/-- Letters and digits of all scripts; raised digits and fractions are none. -/
def isAlphanumeric (c : Char) : Bool :=
  Text.isWord c && c != '_' && !(['²', '³', '¹', '¼', '½', '¾'].contains c)

/-- Whether a brace opens behind the first character, before a semicolon or closing brace. -/
def bracesAhead : List Char → Bool
  | [] => false
  | c :: rest => c != ';' && c != '}' && (rest.head? == some '{' || bracesAhead rest)

/-- Whether a simple selector follows blanks. -/
def beginsSimple : List Char → Bool
  | [] => false
  | ':' :: rest =>
    !rest.head?.any isWideBlank && (rest.head? == some '{' || bracesAhead rest)
  | c :: _ => ['#', '.', '[', '-', '*', '&'].contains c || isAlphanumeric c

/-- Whether a text behind a name begins with the colon of a pseudo-class. -/
def beginsPseudoClass : List Char → Bool
  | ':' :: rest => rest.head? != some ':' && bracesAhead rest
  | _ => false

/-- Cuts a text where a later part of it begins. -/
def cut (cs rest : List Char) : List Char × List Char := cs.splitAt (cs.length - rest.length)

theorem cut_append (cs rest : List Char) : (cut cs rest).1 ++ (cut cs rest).2 = cs := by
  simp [cut, List.splitAt_eq]

/-- What stands before a later part of a text. -/
def before (cs rest : List Char) : List Char := (cut cs rest).1

/-- The later of two parts of a text, if there are two. -/
def later (a b : List Char) : List Char := if b.length < a.length then b else a

/-! ## Names and words -/

def isLetter (c : Char) : Bool := ('a' ≤ c && c ≤ 'z') || ('A' ≤ c && c ≤ 'Z')

/-- The second half of Latin-1. -/
def isLatinMark (c : Char) : Bool := 0xa0 ≤ c.toNat && c.toNat ≤ 0xff

def isNameStart (c : Char) : Bool := isLetter c || c = '_' || isLatinMark c

def isNameChar (c : Char) : Bool := isNameStart c || c.isDigit || c = '-'

/-- The rest behind a name: two dashes, or one dash at most and a letter, mark or underscore, and then
letters, marks, digits, underscores and dashes. -/
def dropName : List Char → Option (List Char)
  | '-' :: '-' :: rest => some (rest.dropWhile isNameChar)
  | '-' :: c :: rest => if isNameStart c then some (rest.dropWhile isNameChar) else none
  | c :: rest => if isNameStart c then some (rest.dropWhile isNameChar) else none
  | [] => none

/-- The name that a text begins with. -/
def nameOf (cs : List Char) : List Char := ((dropName cs).map (before cs)).getD []

/-- The characters that end a word. -/
def isBorder (c : Char) : Bool :=
  Text.isPlainBlank c || [',', ';', '!', '{', '}', '(', ')', '[', ']'].contains c

/-- The rest behind the slashes, dashes and underscores in front of a word: a slash takes the next
character along. -/
def dropWordLead : List Char → List Char
  | '/' :: c :: rest => if c = '*' || isBorder c then '/' :: c :: rest else dropWordLead rest
  | c :: rest => if c = '-' || c = '_' then dropWordLead rest else c :: rest
  | [] => []

/-- The rest behind the inside of a word, where a slash takes the next character along. -/
def dropWordBody : List Char → List Char
  | '/' :: c :: rest => if c = '*' || isBorder c then '/' :: c :: rest else dropWordBody rest
  | '/' :: [] => ['/']
  | c :: rest => if isBorder c then c :: rest else dropWordBody rest
  | [] => []

/-- The rest behind a word, which has a letter in front or behind its lead. -/
def dropWord (cs : List Char) : Option (List Char) :=
  match dropWordLead cs with
  | c :: rest => if isLetter c then some (dropWordBody rest) else none
  | [] => none

/-! ## Blanks and comments -/

/-- Where in a stylesheet a text stands, as far as that decides about slashes. -/
inductive Spot where
  /-- Outside of values: two slashes begin a comment. -/
  | outside
  /-- Before a value: a slash can begin a word. -/
  | value
  /-- Behind a value that another one may follow: a slash can also be an operator. -/
  | series
  /-- Behind a value that stands alone: a slash is an operator. -/
  | single
  /-- Behind an imported address: a slash is an operator, and a name can follow. -/
  | imported
  deriving DecidableEq, Repr

/-- The rest behind the mark that closes a comment. -/
def afterComment : List Char → Option (List Char)
  | '*' :: '/' :: rest => some rest
  | _ :: rest => afterComment rest
  | [] => none

/-- Whether two slashes that a text begins with start a comment. Where they could begin a word they do so
unless the word has a slash at its end. -/
def slashesComment (spot : Spot) (cs : List Char) : Bool :=
  match spot with
  | .outside => true
  | .single => false
  | .imported => false
  | .value => (dropWord cs).all fun rest => rest.head? = some '/'
  | .series => (dropWord cs).all fun rest => rest.head? = some '/'

/-- The rest behind one comment, if the text begins with one. -/
def dropComment (spot : Spot) (cs : List Char) : Option (List Char) :=
  match cs with
  | '/' :: '*' :: rest => afterComment rest
  | '/' :: '/' :: rest => if slashesComment spot cs then some (rest.dropWhile (· != '\n')) else none
  | _ => none

/-- What a gap can begin with. -/
def beginsGap (c : Char) : Bool := Text.isPlainBlank c || c = '/'

/-- The rest behind all blanks and comments; `fuel` bounds the number of comments. -/
def dropGapWithin (spot : Spot) : Nat → List Char → List Char
  | 0, cs => cs
  | fuel + 1, cs =>
    let rest := cs.dropWhile Text.isPlainBlank
    match dropComment spot rest with
    | some rest => dropGapWithin spot fuel rest
    | none => rest

/-- The rest behind all blanks and comments. -/
def dropGap (spot : Spot) (cs : List Char) : List Char :=
  if cs.head?.any beginsGap then dropGapWithin spot (cs.length + 1) cs else cs

/-- The blanks and comments that a text begins with. -/
def gapOf (spot : Spot) (cs : List Char) : List Char := before cs (dropGap spot cs)

/-- The rest behind blanks and comments that end with a comment, so that no blank stands before what
follows; otherwise the text itself. -/
def dropJoint (spot : Spot) (cs : List Char) : List Char :=
  if cs.head?.any beginsGap && (gapOf spot cs).getLast? = some '/' then dropGap spot cs else cs

/-! ## Strings -/

def isQuote (c : Char) : Bool := c = '"' || c = '\''

/-- The rest behind the inside of a string, up to a quote or the end of a line with no backslash
before it. -/
def dropInside (quote : Char) (guarded : Bool) : List Char → List Char
  | [] => []
  | c :: rest =>
    if (c = quote || c = '\n') && !guarded then c :: rest else dropInside quote (c = '\\') rest

/-- The rest behind a string whose quote is open. A line may end in it, and behind the quote or a line's
beginning a comment may stand, which can hide quotes. `fuel` bounds the number of lines and comments. -/
def closeString (quote : Char) : Nat → List Char → Option (List Char)
  | 0, _ => none
  | fuel + 1, cs =>
    match cs.dropWhile Text.isPlainBlank with
    | [] => none
    | c :: rest =>
      if c = quote then some rest
      else
        let inside := dropInside quote false (c :: rest)
        match dropComment .value (c :: rest), rest with
        | some behind, '*' :: _ => closeString quote fuel (later inside behind)
        | _, _ => closeString quote fuel inside

/-- The rest behind a string. -/
def dropString : List Char → Option (List Char)
  | c :: rest => if isQuote c then closeString c (rest.length + 1) rest else none
  | [] => none

end Retouch.Sheet
