import Retouch.Files.Path
import Retouch.Text.Blank
import Retouch.Markup.Lexis

/-!
# Reading markup

Finds the elements of a program. Program text is followed only as far as needed to tell a tag from an
operator: through strings, comments, patterns, templates and brackets, with a look at what stands before
a less-than sign. Inside an element everything is text up to the next tag, brace or reference. A tag
whose element is not complete is no element, and its sign is stray. What is read is a row of pieces:
program text, and elements with their tags and children. Pieces keep every character, so that the text of
a source is the text of its pieces, and places in the one are places in the other.
-/
namespace Retouch.Markup

inductive Language where
  | tsx
  | typescript
  | javascript
  deriving DecidableEq, Repr

namespace Language

def name : Language → String
  | .tsx => "tsx"
  | .typescript => "typescript"
  | .javascript => "javascript"

def all : List Language := [.tsx, .typescript, .javascript]

def ofName? (name : String) : Option Language := all.find? fun language => language.name == name

/-- The suffixes of markup files. -/
def suffixes : List (String × Language) :=
  [(".tsx", .tsx), (".ts", .typescript), (".jsx", .javascript), (".js", .javascript)]

def ofPath? (path : String) : Option Language :=
  (suffixes.find? fun entry => entry.1 == Files.suffix path).map Prod.snd

end Language

inductive Piece where
  /-- Program text, the inside of tags, and the blanks between children. -/
  | code (text : List Char)
  /-- What fits nowhere. -/
  | stray (text : List Char)
  /-- A text of an element. -/
  | text (text : List Char)
  /-- A character written by its name or number. -/
  | reference (text : List Char)
  /-- An expression among the children of an element, with its braces. -/
  | braces (inner : List Piece)
  /-- An element with a name, its opening tag, its children and its closing tag; a self-closing element
  has no children and no closing tag. -/
  | element (name : List Char) (opening children : List Piece) (closing : Option (List Char))
  deriving Repr, Inhabited

mutual

/-- The characters of a piece. -/
def Piece.chars : Piece → List Char
  | .code text => text
  | .stray text => text
  | .text text => text
  | .reference text => text
  | .braces inner => charsOf inner
  | .element _ opening children closing => charsOf opening ++ charsOf children ++ closing.getD []
termination_by structural piece => piece

def charsOf : List Piece → List Char
  | [] => []
  | piece :: rest => piece.chars ++ charsOf rest
termination_by structural pieces => pieces

end

mutual

/-- Whether everything in a piece has its place. -/
def Piece.isSound : Piece → Bool
  | .code _ => true
  | .stray _ => false
  | .text _ => true
  | .reference _ => true
  | .braces inner => areSound inner
  | .element _ opening children _ => areSound opening && areSound children
termination_by structural piece => piece

def areSound : List Piece → Bool
  | [] => true
  | piece :: rest => piece.isSound && areSound rest
termination_by structural pieces => pieces

end

/-- Program text in front of pieces. -/
def consCode (text : List Char) : List Piece → List Piece
  | .code more :: rest => .code (text ++ more) :: rest
  | pieces => .code text :: pieces

theorem charsOf_consCode (text : List Char) (pieces : List Piece) :
    charsOf (consCode text pieces) = text ++ charsOf pieces := by
  unfold consCode
  split <;> simp [charsOf, Piece.chars]

/-- What comes before a place in program text. -/
inductive Before where
  /-- An expression can begin here. -/
  | start
  /-- An expression has just ended. -/
  | operand
  /-- A point, so that a word is the name of a member. -/
  | point
  deriving DecidableEq, Repr

/-- What comes before the place behind a word. -/
def Before.afterWord (b : Before) (word : List Char) : Before :=
  if b ≠ .point && leadingWords.contains (String.ofList word) then .start else .operand

def closingOf (c : Char) : Char := if c = '(' then ')' else if c = '[' then ']' else '}'

def isOpening (c : Char) : Bool := c = '(' || c = '[' || c = '{'
def isClosing (c : Char) : Bool := c = ')' || c = ']' || c = '}'

/-- The name of a tag, its parts joined by points or colons, and what follows it. -/
def cutTagName : Nat → List Char → Option (List Char × List Char)
  | 0, _ => none
  | fuel + 1, cs =>
    match cs with
    | [] => none
    | c :: rest =>
      if isWordStart c then
        let word := c :: rest.takeWhile isTagNameChar
        let after := rest.dropWhile isTagNameChar
        match withoutBlanks after with
        | d :: more =>
          if d = '.' || d = ':' then
            match cutTagName fuel (withoutBlanks more) with
            | some (name, last) =>
              some (word ++ blanksOf after ++ d :: blanksOf more ++ name, last)
            | none => none
          else some (word, after)
        | [] => some (word, after)
      else none

/-- Whether a less-than sign before this text begins the parameters of a function type. -/
def looksGeneric (cs : List Char) : Bool :=
  match withoutBlanks cs with
  | c :: rest =>
    isWordStart c &&
      match withoutBlanks (rest.dropWhile isWordChar) with
      | ',' :: _ => true
      | '>' :: more => (withoutBlanks more).head? = some '('
      | more => "extends ".toList.isPrefixOf more
  | [] => false

/-- Cuts behind type arguments, whose sign is open; angle brackets nest. -/
def cutTypeArguments : Nat → List Char → Option (List Char × List Char)
  | _, [] => none
  | depth, c :: rest =>
    if c = '>' && depth = 0 then some ([c], rest)
    else
      let depth := if c = '<' then depth + 1 else if c = '>' then depth - 1 else depth
      (cutTypeArguments depth rest).map fun (front, back) => (c :: front, back)

/-- A comment of program text and what follows it. -/
def cutAnyComment : List Char → Option (List Char × List Char)
  | '/' :: '*' :: rest => (cutComment rest).map fun (front, back) => ('/' :: '*' :: front, back)
  | '/' :: '/' :: rest =>
    some ('/' :: '/' :: rest.takeWhile (· ≠ '\n'), rest.dropWhile (· ≠ '\n'))
  | _ => none

/-- The parts of the inside of an opening tag, whether it closes itself, and what follows it. -/
structure TagEnd where
  pieces : List Piece
  single : Bool
  rest : List Char

def TagEnd.push (text : List Char) (t : TagEnd) : TagEnd := { t with pieces := consCode text t.pieces }

/-- The children of an element, its closing tag, and what follows it. -/
structure Body where
  children : List Piece
  closing : List Char
  rest : List Char

def Body.push (piece : Piece) (b : Body) : Body := { b with children := piece :: b.children }

/-- A closing tag and what follows it. -/
def cutClosingTag : List Char → Option (List Char × List Char)
  | '<' :: cs =>
    match withoutBlanks cs with
    | '/' :: more =>
      let front := '<' :: blanksOf cs ++ '/' :: blanksOf more
      let body := withoutBlanks more
      let (name, rest) := (cutTagName body.length body).getD ([], body)
      match withoutBlanks rest with
      | '>' :: last => some (front ++ name ++ blanksOf rest ++ ['>'], last)
      | _ => none
    | _ => none
  | _ => none

mutual

/-- Reads program text up to a closing bracket that was not opened in it. -/
def readCode (tags : Bool) : Nat → Before → List Char → List Piece × List Char
  | 0, _, cs => ([.stray cs], [])
  | fuel + 1, before, cs =>
    let plain (text : List Char) (before : Before) (rest : List Char) : List Piece × List Char :=
      let (pieces, last) := readCode tags fuel before rest
      (consCode text pieces, last)
    let stray (text : List Char) (rest : List Char) : List Piece × List Char :=
      let (pieces, last) := readCode tags fuel .start rest
      (.stray text :: pieces, last)
    match cs with
    | [] => ([], [])
    | c :: rest =>
      if isClosing c then ([], cs)
      else if isBlankChar c then plain [c] before rest
      else match cutAnyComment cs with
      | some (comment, rest) => plain comment before rest
      | none =>
        if c = '"' || c = '\'' then
          match cutQuoted c rest with
          | some (body, rest) => plain (c :: body) .operand rest
          | none => stray [c] rest
        else if c = '`' then
          match readTemplate tags fuel rest with
          | some (pieces, rest) =>
            let (more, last) := readCode tags fuel .operand rest
            (consCode [c] (pieces ++ more), last)
          | none => stray [c] rest
        else if isOpening c then
          let (inner, more) := readCode tags fuel .start rest
          match more with
          | [] => (.stray [c] :: inner, [])
          | d :: rest =>
            if d = closingOf c then
              let (after, last) :=
                readCode tags fuel (if d = '}' then .start else .operand) rest
              (consCode [c] (inner ++ consCode [d] after), last)
            else (.stray [c] :: inner, d :: rest)
        else if isWordStart c then
          let word := c :: rest.takeWhile isWordChar
          plain word (before.afterWord word) (rest.dropWhile isWordChar)
        else if c.isDigit then
          plain (c :: rest.takeWhile isWordChar) .operand (rest.dropWhile isWordChar)
        else if c = '.' then plain [c] .point rest
        else if c = '/' && before != .operand then
          match cutPattern false rest with
          | some (body, rest) => plain (c :: body) .operand rest
          | none => plain [c] .start rest
        else if c = '<' && before != .operand && tags then
          match readElement tags fuel cs with
          | some (piece, after) =>
            if !piece.isSound && looksGeneric rest then plain [c] .start rest
            else
              let (more, last) := readCode tags fuel .operand after
              (piece :: more, last)
          | none => if looksGeneric rest then plain [c] .start rest else stray [c] rest
        else plain [c] .start rest

/-- Reads a template behind its first mark, up to and with its last one. -/
def readTemplate (tags : Bool) : Nat → List Char → Option (List Piece × List Char)
  | 0, _ => none
  | fuel + 1, cs =>
    match cs with
    | [] => none
    | '`' :: rest => some ([.code ['`']], rest)
    | '\\' :: c :: rest =>
      (readTemplate tags fuel rest).map fun (pieces, last) => (consCode ['\\', c] pieces, last)
    | '$' :: '{' :: rest =>
      match readCode tags fuel .start rest with
      | (inner, '}' :: more) =>
        (readTemplate tags fuel more).map fun (pieces, last) =>
          (consCode ['$', '{'] (inner ++ consCode ['}'] pieces), last)
      | _ => none
    | c :: rest =>
      (readTemplate tags fuel rest).map fun (pieces, last) => (consCode [c] pieces, last)

/-- Reads an element from its first sign on. -/
def readElement (tags : Bool) : Nat → List Char → Option (Piece × List Char)
  | 0, _ => none
  | fuel + 1, cs =>
    match cs with
    | '<' :: more =>
      let blanks := blanksOf more
      match withoutBlanks more with
      | '>' :: rest =>
        (readChildren tags fuel rest).map fun body =>
          (.element [] [.code ('<' :: blanks ++ ['>'])] body.children (some body.closing), body.rest)
      | inner =>
        match cutTagName inner.length inner with
        | none => none
        | some (name, after) =>
          let front := '<' :: blanks ++ name
          let typed : Option (List Char × List Char) := match withoutBlanks after with
            | '<' :: rest =>
              (cutTypeArguments 0 rest).map fun (arguments, rest) =>
                (front ++ blanksOf after ++ '<' :: arguments, rest)
            | _ => some (front, after)
          match typed with
          | none => none
          | some (front, after) =>
            match readTag tags fuel after with
            | none => none
            | some tag =>
              if tag.single then some (.element name (consCode front tag.pieces) [] none, tag.rest)
              else
                (readChildren tags fuel tag.rest).map fun body =>
                  (.element name (consCode front tag.pieces) body.children (some body.closing),
                    body.rest)
    | _ => none

/-- Reads the attributes of an opening tag and its end. -/
def readTag (tags : Bool) : Nat → List Char → Option TagEnd
  | 0, _ => none
  | fuel + 1, cs =>
    match cs with
    | [] => none
    | '>' :: rest => some ⟨[.code ['>']], false, rest⟩
    | '/' :: '>' :: rest => some ⟨[.code ['/', '>']], true, rest⟩
    | c :: rest =>
      if isBlankChar c then (readTag tags fuel rest).map (.push [c])
      else match cutAnyComment cs with
      | some (comment, rest) => (readTag tags fuel rest).map (.push comment)
      | none =>
        if c = '{' then readTagBraces tags fuel [] rest
        else if isWordStart c then
          let word := c :: rest.takeWhile fun d => isTagNameChar d || d = ':'
          let after := rest.dropWhile fun d => isTagNameChar d || d = ':'
          match withoutBlanks after with
          | '=' :: more =>
            let front := word ++ blanksOf after ++ '=' :: blanksOf more
            match withoutBlanks more with
            | '{' :: rest => readTagBraces tags fuel front rest
            | '<' :: rest =>
              match readElement tags fuel ('<' :: rest) with
              | some (piece, rest) =>
                (readTag tags fuel rest).map fun tag =>
                  { tag with pieces := .code front :: piece :: tag.pieces }
              | none => none
            | d :: rest =>
              if d = '"' || d = '\'' then
                match cutAttribute d rest with
                | some (body, rest) =>
                  if hasGoodReferences body then
                    (readTag tags fuel rest).map (.push (front ++ d :: body))
                  else
                    (readTag tags fuel rest).map fun tag =>
                      { tag with pieces := .stray (front ++ d :: body) :: tag.pieces }
                | none => none
              else none
            | [] => none
          | _ => (readTag tags fuel after).map (.push word)
        else none

/-- Reads an expression in braces inside a tag, whose brace is open, and the rest of the tag. -/
def readTagBraces (tags : Bool) : Nat → List Char → List Char → Option TagEnd
  | 0, _, _ => none
  | fuel + 1, front, cs =>
    match readCode tags fuel .start cs with
    | (inner, '}' :: rest) =>
      (readTag tags fuel rest).map fun tag =>
        { tag with pieces := consCode (front ++ ['{']) (inner ++ consCode ['}'] tag.pieces) }
    | _ => none

/-- Reads the children of an element up to and with its closing tag. -/
def readChildren (tags : Bool) : Nat → List Char → Option Body
  | 0, _ => none
  | fuel + 1, cs =>
    match cs with
    | [] => none
    | c :: rest =>
      if c = '<' then
        match cutClosingTag cs with
        | some (closing, rest) => some ⟨[], closing, rest⟩
        | none =>
          match readElement tags fuel cs with
          | some (piece, rest) => (readChildren tags fuel rest).map (.push piece)
          | none => none
      else if c = '{' then
        match readCode tags fuel .start rest with
        | (inner, '}' :: rest) =>
          (readChildren tags fuel rest).map
            (.push (.braces (consCode ['{'] (inner ++ [.code ['}']]))))
        | _ => none
      else if c = '&' then
        match cutReference cs with
        | some (reference, rest) => (readChildren tags fuel rest).map (.push (.reference reference))
        | none => (readChildren tags fuel rest).map (.push (.stray [c]))
      else if c = '>' || c = '}' then (readChildren tags fuel rest).map (.push (.stray [c]))
      else
        let run := cs.takeWhile fun d => !endsText d
        let piece := if isText false run then Piece.text run else .code run
        (readChildren tags fuel (cs.dropWhile fun d => !endsText d)).map (.push piece)

end

/-- Reads a whole program; closing brackets that nothing opened are stray. -/
def readAll (tags : Bool) : Nat → List Char → List Piece
  | 0, cs => [.stray cs]
  | fuel + 1, cs =>
    match readCode tags (4 * cs.length + 4) .start cs with
    | (pieces, []) => pieces
    | (pieces, c :: rest) => pieces ++ .stray [c] :: readAll tags fuel rest

/-- The pieces of a source. Only two of the languages have elements. -/
def parse (language : Language) (cs : List Char) : List Piece :=
  readAll (language ≠ .typescript) (cs.length + 1) cs

end Retouch.Markup
