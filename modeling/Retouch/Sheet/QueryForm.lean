import Retouch.Sheet.SelectorForm

/-!
# The form of at-rules

An at-rule has a keyword, what stands between it and its end, and a semicolon or a block. Most take
queries, with commas between them; some take values or selectors.
-/
namespace Retouch.Sheet

/-- The words that a query can begin with and that are no names. -/
def isQueryWord (name : List Char) : Bool :=
  name = "not".toList || name = "only".toList || name = "selector".toList

/-- The name that a query begins with. Where a value can stand as well, a longer word is no name. The
spot is that behind the name. -/
def queryName (spot : Spot) (cs : List Char) : List Char :=
  if spot = .outside then nameOf cs
  else
    match dropAtom cs with
    | some (.name, rest) => before cs rest
    | _ => []

/-- The rest behind a word that joins two queries. -/
def dropJoiner (spot : Spot) (cs : List Char) : Option (List Char) :=
  if spot = .series then
    let name := queryName spot cs
    if name = "and".toList || name = "or".toList then some (cs.drop name.length) else none
  else (dropText "and" cs).or (dropText "or" cs)

/-- The rest behind a selector in parentheses. -/
def dropLimit (cs : List Char) : Option (List Char) :=
  match cs with
  | '(' :: inner =>
    (dropSelector (selectorFuel cs) (dropGap .outside inner)).bind fun rest =>
      dropText ")" (dropGap .outside rest)
  | _ => none

mutual

/-- The rest behind a query. The spot is that behind a name it may begin with: where values can stand as
well, their words and slashes are read as such. -/
def dropQuery (spot : Spot) : Nat → List Char → Option (List Char)
  | 0, _ => none
  | fuel + 1, cs =>
    let name := queryName spot cs
    let rest := cs.drop name.length
    if name = "not".toList || name = "only".toList then
      dropQuery .outside fuel (dropGap .outside rest)
    else
      let single :=
        if name = "selector".toList then
          (dropLimit (dropGap .outside rest)).map (Spot.outside, ·)
        else if !name.isEmpty then some (spot, rest)
        else
          match cs with
          | '(' :: inner =>
            (dropGrouped (spot != .outside) fuel
              (dropGap (if spot = .outside then .outside else .value) inner)).map (Spot.outside, ·)
          | _ => none
      single.bind fun (spot, rest) =>
        match dropJoiner spot (dropGap spot rest) with
        | some more => dropQuery .outside fuel (dropGap .outside more)
        | none => some rest

/-- The rest behind a feature or a query in parentheses, the first of which is open. `mixed` tells whether
a value can stand there as well. -/
def dropGrouped (mixed : Bool) : Nat → List Char → Option (List Char)
  | 0, _ => none
  | fuel + 1, cs =>
    let spot : Spot := if mixed then .single else .outside
    let name := queryName spot cs
    let behind := dropGap spot (cs.drop name.length)
    if !name.isEmpty && !isQueryWord name && behind.head? = some ':' then
      let value := dropGap .value behind.tail
      (dropSeries (valueFuel value) value).bind fun rest => dropText ")" (dropGap .series rest)
    else (dropQuery spot fuel cs).bind fun rest => dropText ")" (dropGap .outside rest)

end

/-- The rest behind queries with commas between them; `fuel` bounds their number. -/
def dropQueryList (spot : Spot) : Nat → List Char → Option (List Char)
  | 0, _ => none
  | fuel + 1, cs =>
    (dropQuery spot (selectorFuel cs) cs).bind fun rest =>
      match dropGap .outside rest with
      | ',' :: more => dropQueryList .outside fuel (dropGap .outside more)
      | _ => some rest

def dropQueries (spot : Spot) (cs : List Char) : Option (List Char) :=
  dropQueryList spot (cs.length + 1) cs

/-! ## Keywords -/

def isKeywordChar (c : Char) : Bool := isLetter c || c = '-' || c = '_'

/-- The keyword of an at-rule with its mark; nothing for other texts. -/
def keywordOf : List Char → List Char
  | '@' :: rest => '@' :: rest.takeWhile isKeywordChar
  | _ => []

def mediaKeyword : List Char := "@media".toList
def supportsKeyword : List Char := "@supports".toList
def scopeKeyword : List Char := "@scope".toList
def importKeyword : List Char := "@import".toList
def charsetKeyword : List Char := "@charset".toList
def namespaceKeyword : List Char := "@namespace".toList
def framesEnding : List Char := "keyframes".toList

/-- Whether a keyword begins an animation; a prefix in small letters may stand before it. -/
def isFramesKeyword (keyword : List Char) : Bool :=
  framesEnding.isSuffixOf keyword &&
    keyword.tail.all fun c => c = '-' || ('a' ≤ c && c ≤ 'z')

/-- What an at-rule can end with. -/
structure Ending where
  /-- Where the blanks and comments before the end stand. -/
  spot : Spot
  semicolon : Bool
  block : Bool
  deriving DecidableEq, Repr

/-- The rest behind the queries that can stand behind an imported address. -/
def dropImported (rest : List Char) : List Char × Ending :=
  match dropQueries .outside (dropGap .imported rest) with
  | some behind => (behind, ⟨.outside, true, false⟩)
  | none => (rest, ⟨.imported, true, false⟩)

/-- The rest behind the name and the address of a namespace. -/
def dropNamespace (cs : List Char) : Option (List Char) :=
  let isCall (cs : List Char) : Bool :=
    (dropName cs).any fun rest => (dropJoint .outside rest).head? = some '('
  let address (cs : List Char) : Option (List Char) :=
    match dropName cs with
    | some rest =>
      match dropJoint .outside rest with
      | '(' :: inner => dropArguments (valueFuel cs) (dropGap .value inner)
      | _ => none
    | none => dropString cs
  match dropName cs with
  | some rest => if isCall cs then address cs else address (dropGap .outside rest)
  | none => address cs

/-- The rest behind the queries of an at-rule of no special kind, of which there may be none. In a block,
where the at-rule may have values instead, `mixed` is true. -/
def dropAnyQueries (mixed : Bool) (cs : List Char) : List Char × Ending :=
  let near := dropGap (if mixed then .value else .outside) cs
  let behindName : Spot := if mixed then .series else .outside
  match dropQueries behindName near with
  | none => (cs, ⟨if mixed then .value else .outside, true, true⟩)
  | some rest =>
    let isName := rest.length + (queryName behindName near).length = near.length
    (rest, ⟨if isName then behindName else .outside, true, true⟩)

/-- The rest behind what stands between a keyword and its end, and how that can look; nothing if it makes
no sense. The text begins behind the keyword. -/
def dropPrelude (inBlock : Bool) (keyword cs : List Char) : Option (List Char × Ending) :=
  let near := dropGap .outside cs
  let withBlock (rest : List Char) : List Char × Ending := (rest, ⟨.outside, false, true⟩)
  let withValue (rest : List Char) : List Char × Ending := (rest, ⟨.single, true, false⟩)
  if keyword = mediaKeyword then (dropQueries .outside near).map withBlock
  else if keyword = supportsKeyword then
    (dropQuery .outside (selectorFuel near) near).map withBlock
  else if keyword = importKeyword then
    (dropValue .imported (dropGap .value cs)).map dropImported
  else if keyword = charsetKeyword then
    (dropValue .single (dropGap .value cs)).map withValue
  else if keyword = namespaceKeyword then (dropNamespace near).map withValue
  else if keyword = scopeKeyword then
    let rest := (dropLimit near).getD cs
    let behind := ((dropText "to" (dropGap .outside rest)).map (dropGap .outside)).bind dropLimit
    some (withBlock (behind.getD rest))
  else if keyword.length < 2 then none
  else some (dropAnyQueries inBlock cs)

/-- Whether a text can only begin a query, although it looks like a value. -/
def beginsQuery (cs : List Char) : Bool :=
  let name := queryName .series cs
  let joiner := queryName .series (dropGap .series (cs.drop name.length))
  isQueryWord name || (!name.isEmpty && (joiner = "and".toList || joiner = "or".toList)) ||
    match cs with
    | '(' :: inner =>
      let near := dropGap .value inner
      let name := queryName .single near
      !name.isEmpty && (dropGap .single (near.drop name.length)).head? = some ')'
    | _ => false

/-- The rest behind the values of an at-rule that is a statement in a block. -/
def dropValuePrelude (cs : List Char) : Option (List Char) :=
  let near := dropGap .value cs
  if beginsQuery near then none else some ((dropSeries (valueFuel near) near).getD cs)

end Retouch.Sheet
