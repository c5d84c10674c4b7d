import Retouch.Sheet.ValueForm

/-!
# The form of selectors

A selector is a row of simple selectors, with combinators or blanks between them; a rule has several
with commas between them. `divide` cuts the list at these commas.
-/
namespace Retouch.Sheet

/-- The rest behind a backslash and what it stands before: up to six digits, or any character of the
line. -/
def dropEscape : List Char → Option (List Char)
  | '\\' :: c :: rest =>
    if isHexDigit c then some (rest.drop (min 5 (rest.takeWhile isHexDigit).length))
    else if c = '\n' then none
    else some rest
  | _ => none

/-- Whether a text behind a simple selector goes on with blanks for descent; gives the rest behind
them. -/
def dropDescent (cs : List Char) : Option (List Char) :=
  let rest := cs.dropWhile isWideBlank
  if cs.head?.any isWideBlank && beginsSimple rest then some rest else none

/-- Whether a text behind a name goes on with blanks for descent, before or behind comments; `fuel` bounds
the number of comments. -/
def meetsDescent : Nat → List Char → Bool
  | 0, _ => false
  | fuel + 1, cs =>
    (dropDescent cs).isSome ||
      (dropComment .outside (cs.dropWhile Text.isPlainBlank)).any (meetsDescent fuel)

/-- The rest behind more parts of the name of a class, between which comments may stand; `fuel` bounds
the number of parts and comments. -/
def dropClassParts : Nat → List Char → List Char
  | 0, cs => cs
  | fuel + 1, cs =>
    if (dropDescent cs).isSome then cs
    else
      let near := cs.dropWhile Text.isPlainBlank
      match dropComment .outside near with
      | some rest =>
        let more := dropClassParts fuel rest
        if more.length < rest.length then more else cs
      | none =>
        match (dropName near).or (dropEscape near) with
        | some rest => dropClassParts fuel rest
        | none => cs

/-- The rest behind the name of a class. -/
def dropClassName (cs : List Char) : Option (List Char) :=
  ((dropName cs).or (dropEscape cs)).map fun rest => dropClassParts rest.length rest

def isCombinator (c : Char) : Bool := c = '>' || c = '+' || c = '~' || c = '|'

/-- The pseudo-classes whose arguments are selectors. -/
def selectorClasses : List (List Char) :=
  ["has", "not", "is", "where", "host", "host-context"].map String.toList

/-- The pseudo-classes that count. -/
def countingClasses : List (List Char) := ["nth-child", "nth-last-child"].map String.toList

/-- The rest behind a word, if the text begins with it. -/
def dropText (word : String) (cs : List Char) : Option (List Char) :=
  if word.toList.isPrefixOf cs then some (cs.drop word.length) else none

/-- The rest behind a multiple of `n`, with a number added or not. -/
def dropMultiple (cs : List Char) : Option (List Char) :=
  let unsigned := (dropText "-" cs).getD cs
  match unsigned.dropWhile Char.isDigit with
  | 'n' :: rest =>
    match dropGap .outside rest with
    | c :: more =>
      if c = '+' || c = '-' then
        let digits := dropGap .outside more
        let behind := digits.dropWhile Char.isDigit
        if behind.length < digits.length then some behind else none
      else some rest
    | [] => some rest
  | _ => none

/-- The rest behind a whole number with its unit. -/
def dropInteger (cs : List Char) : Option (List Char) :=
  let digits := match cs with
    | '+' :: rest => rest
    | '-' :: rest => rest
    | _ => cs
  let behind := digits.dropWhile Char.isDigit
  if behind.length < digits.length then some (dropUnit .single behind) else none

/-- The rest behind what a pseudo-class counts. -/
def dropCount (cs : List Char) : Option (List Char) :=
  (((dropText "even" cs).or (dropText "odd" cs)).or (dropMultiple cs)).or (dropInteger cs)

/-- The rest behind the name of an attribute, with its namespace or not. -/
def dropAttributeName (cs : List Char) : Option (List Char) :=
  let first := match cs with
    | '*' :: rest => some rest
    | '|' :: _ => some cs
    | _ => dropName cs
  let ended (rest : List Char) : Option (List Char) :=
    if meetsDescent (rest.length + 1) rest then none else some rest
  (first.bind ended).bind fun rest =>
    match dropGap .outside rest with
    | '|' :: c :: more =>
      if c = '=' then some rest else
        match dropGap .outside (c :: more) with
        | '*' :: rest => ended rest
        | name => (dropName name).bind ended
    | _ => if cs.head? = some '*' then none else some rest

/-- The rest behind the mark between an attribute and its value. -/
def dropMatcher : List Char → Option (List Char)
  | '=' :: rest => some rest
  | c :: '=' :: rest => if ['~', '^', '|', '*', '$'].contains c then some rest else none
  | _ => none

/-- The rest behind an attribute, whose bracket is open. -/
def dropAttribute (cs : List Char) : Option (List Char) :=
  (dropAttributeName (dropGap .outside cs)).bind fun rest =>
    let behind := match dropMatcher (dropGap .outside rest) with
      | some value => (dropValue .single (dropGap .value value)).map (dropGap .single)
      | none => some (dropGap .outside rest)
    behind.bind (dropText "]")

/-- Whether the name behind a hash sign is a color code as a whole. -/
def beginsColor (cs : List Char) : Bool :=
  match cs with
  | '#' :: rest =>
    (dropColorCode (dropJoint .outside rest)).any fun behind =>
      (dropName (dropGap .outside rest)).all fun name => behind.length ≤ name.length
  | _ => false

mutual

/-- The rest behind a selector. -/
def dropSelector : Nat → List Char → Option (List Char)
  | 0, _ => none
  | fuel + 1, cs =>
    match cs with
    | [] => none
    | c :: rest =>
      if isCombinator c then dropSelector fuel (dropGap .outside rest)
      else
        let first :=
          if c = '*' then some rest
          else if c = '&' then
            if (dropDescent rest).isSome then some rest
            else some ((dropClassName (dropGap .outside rest)).getD rest)
          else if isQuote c then dropString cs
          else (dropName cs).or (dropSimple fuel cs)
        first.map fun rest => dropRow fuel rest rest

/-- The rest behind what may follow a simple selector. `done` is where the last one ended, in front of
the comments that were passed since. -/
def dropRow : Nat → List Char → List Char → List Char
  | 0, done, _ => done
  | fuel + 1, done, cs =>
    match dropDescent cs with
    | some rest => (dropSelector fuel rest).getD done
    | none =>
      let near := cs.dropWhile Text.isPlainBlank
      match dropComment .outside near with
      | some rest => dropRow fuel done rest
      | none =>
        match near with
        | [] => done
        | c :: rest =>
          if isCombinator c then (dropSelector fuel (dropGap .outside rest)).getD done
          else
            let more :=
              if c = '&' then dropClassName (dropGap .outside rest)
              else if c = ':' && near.length < cs.length && rest.head? ≠ some ':' then none
              else dropSimple fuel near
            match more with
            | some rest => dropRow fuel rest rest
            | none => done

/-- The rest behind a simple selector that can follow another one. -/
def dropSimple : Nat → List Char → Option (List Char)
  | 0, _ => none
  | fuel + 1, cs =>
    match cs with
    | '.' :: rest => dropClassName (dropGap .outside rest)
    | '#' :: rest => dropName (dropGap .outside rest)
    | '[' :: rest => dropAttribute rest
    | ':' :: ':' :: rest =>
      (dropName (dropGap .outside rest)).bind fun rest =>
        match dropJoint .outside rest with
        | '(' :: inner => dropMixed fuel true (dropGap .value inner)
        | _ => some rest
    | ':' :: rest =>
      if !beginsPseudoClass cs then none
      else
        let near := dropGap .outside rest
        let name := nameOf near
        let behind := near.drop name.length
        if selectorClasses.contains name then
          match dropJoint .outside behind with
          | '(' :: inner => dropSelectorArguments fuel (dropGap .outside inner)
          | _ => none
        else if countingClasses.contains name then
          match dropJoint .outside behind with
          | '(' :: inner => dropCountArguments fuel (dropGap .outside inner)
          | _ => none
        else
          (dropClassName near).bind fun rest =>
            match dropJoint .outside rest with
            | '(' :: inner => dropMixed fuel true (dropGap .value inner)
            | _ => some rest
    | _ => none

/-- The rest behind selectors in parentheses, of which there may be none. -/
def dropSelectorArguments : Nat → List Char → Option (List Char)
  | 0, _ => none
  | fuel + 1, cs =>
    match cs with
    | ')' :: rest => some rest
    | _ => dropInnerList fuel cs

/-- The rest behind selectors with commas between them and the closing parenthesis. -/
def dropInnerList : Nat → List Char → Option (List Char)
  | 0, _ => none
  | fuel + 1, cs =>
    (dropSelector fuel cs).bind fun rest =>
      match dropGap .outside rest with
      | ',' :: rest => dropInnerList fuel (dropGap .outside rest)
      | ')' :: rest => some rest
      | _ => none

/-- The rest behind what is counted and of which elements, and the closing parenthesis. -/
def dropCountArguments : Nat → List Char → Option (List Char)
  | 0, _ => none
  | fuel + 1, cs =>
    (dropCount cs).bind fun rest =>
      let near := dropGap .outside rest
      match dropText "of" near with
      | some more =>
        (dropSelector fuel (dropGap .outside more)).bind fun rest =>
          dropText ")" (dropGap .outside rest)
      | none => dropText ")" near

/-- The rest behind arguments that are selectors or values, and the closing parenthesis; `mayEnd` tells
whether there may be no more. -/
def dropMixed : Nat → Bool → List Char → Option (List Char)
  | 0, _, _ => none
  | fuel + 1, mayEnd, cs =>
    if mayEnd && cs.head? = some ')' then some cs.tail
    else
      let behind (rest : List Char) : Option (List Char) :=
        match dropGap .outside rest with
        | ',' :: more => dropMixed fuel false (dropGap .value more)
        | ')' :: more => some more
        | _ => none
      let isValue := match dropAtom cs with
        | some (.name, _) => false
        | some _ => true
        | none => beginsColor cs
      match if isValue then none else (dropSelector fuel cs).bind behind with
      | some rest => some rest
      | none =>
        let joins (next : List Char) : Bool :=
          next.head? = some '[' || (next.head? = some '+' && (dropAtom next).isNone)
        let isSelector := !isValue && (cs.head? = some '[' ||
          ((dropName cs).or (dropString cs)).any fun rest =>
            (dropDescent rest).isSome || joins (dropGap .series rest))
        if isSelector then none
        else (dropSeries (valueFuel cs) cs).bind fun rest => behind (dropGap .series rest)

end

/-- Enough fuel for the selectors of a text. -/
def selectorFuel (cs : List Char) : Nat := 4 * cs.length + 4

/-- The selectors of a list, and the rest behind them; `fuel` bounds their number. -/
def readSelectors : Nat → List Char → Option (List (List Char) × List Char)
  | 0, _ => none
  | fuel + 1, cs =>
    match dropSelector (selectorFuel cs) cs with
    | none => none
    | some rest =>
      match dropGap .outside rest with
      | ',' :: more =>
        (readSelectors fuel (dropGap .outside more)).map fun (others, behind) =>
          (before cs rest :: others, behind)
      | _ => some ([before cs rest], rest)

/-- The rest behind selectors with commas between them. -/
def dropSelectors (cs : List Char) : Option (List Char) :=
  (readSelectors (cs.length + 1) cs).map Prod.snd

/-- The selectors of a list, without the blanks and comments around them. -/
def divide (cs : List Char) : List (List Char) :=
  ((readSelectors (cs.length + 1) cs).map Prod.fst).getD []

end Retouch.Sheet
