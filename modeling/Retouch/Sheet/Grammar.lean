import Retouch.Grammar.Mend
import Retouch.Sheet.Lexis

/-!
# The grammar of stylesheets

The tokens and rules of stylesheets as data. Of tokens that end at the same character an earlier one
goes before a later one, so the order of the list below is part of the grammar.
-/
namespace Retouch.Sheet.Syntax

open Grammar Pattern

def letters : CharSet := .span 'a' 'z' ++ .span 'A' 'Z'

def digits : CharSet := .span '0' '9'

def hexDigits : CharSet := digits ++ .span 'a' 'f' ++ .span 'A' 'F'

/-- What a name can begin with: letters, also those of the second half of Latin-1. -/
def nameStarts : CharSet := letters ++ .ofString "_" ++ .span '\u00a0' '\u00ff'

def nameCharacters : CharSet := nameStarts ++ digits ++ .ofString "-"

/-- What ends a word. -/
def borders : CharSet := blanks ++ .ofString ",;!\x7b\x7d()[]"

def anyBut (set : CharSet) : Pattern := .one set.complement

def oneOf (s : String) : Pattern := .one (.ofString s)

def sign : Pattern := .opt (oneOf "+-")

def exponent : Pattern := .seq [oneOf "eE", .opt (oneOf "-"), .atLeastOne (.one digits)]

/-- From one time to a number of times. -/
def upTo (part : Pattern) : Nat → Pattern
  | 0 => part
  | n + 1 => .seq [part, .opt (upTo part n)]

def name : Pattern :=
  .seq [.alt [.text "--", .seq [.opt (.text "-"), .one nameStarts]], .many (.one nameCharacters)]

/-- The inside of a string, where a backslash takes the next character along. -/
def stringText (quote : String) : Pattern :=
  .atLeastOne (.alt [anyBut (.ofString ("\n" ++ quote)), .seq [.text "\\", anyBut ⟨[]⟩]])

def escape : Pattern :=
  .seq [.text "\\", .alt [upTo (.one hexDigits) 5, anyBut (.ofString "\n")]]

/-- A slash that goes on with the word. -/
def innerSlash : Pattern := .seq [.text "/", anyBut (borders ++ .ofString "*")]

/-- A word, which has a letter behind slashes, dashes and underscores. -/
def word : Pattern :=
  .seq [.many (.alt [oneOf "-_", innerSlash]), .one letters,
    .many (.alt [anyBut (borders ++ .ofString "/"), innerSlash])]

def comment : Pattern :=
  let star := Pattern.text "*"
  .seq [.text "/*", .many (anyBut (.ofString "*")), .atLeastOne star,
    .many (.seq [anyBut (.ofString "/*"), .many (anyBut (.ofString "*")), .atLeastOne star]),
    .text "/"]

def tokens : List Token :=
  ["@import", ",", ";", "@media", "@charset", "@namespace", "@keyframes"].map .fixed ++
  [.ofPattern "_framesKeyword"
    (.seq [.text "@", .atLeastOne (.one (.span 'a' 'z' ++ .ofString "-")), .text "keyframes"])] ++
  ["\x7b", "\x7d", "from", "to", "@supports", "@scope", "(", ")", "&", "*", ".", "has", "not", "is",
    "where", "host", "host-context", "nth-child", "nth-last-child", "::", "#"].map .fixed ++
  [((Token.fixed "[").ranked 1).named "attribute["] ++
  ["=", "~=", "^=", "|=", "*=", "$=", "]", ">", "~", "+", "|"].map .fixed ++
  [(Token.fixed "(").immediate.named "arguments(",
    .ofPattern "_multiple" (.seq [.opt (.text "-"), .many (.one digits), .text "n"]),
    .fixed "-",
    .ofPattern "_digits" (.atLeastOne (.one digits))] ++
  ["even", "odd", "of", ":", "!important", "and", "or", "only", "selector"].map .fixed ++
  [(Token.ofPattern "_colorCode"
      (.seq [.one hexDigits, .one hexDigits, upTo (.one hexDigits) 5])).immediate,
    .fixed "'",
    .ofPattern "_stringInQuotes" (stringText "'"),
    .fixed "\"",
    .ofPattern "_stringInDoubleQuotes" (stringText "\""),
    .ofPattern "_integer" (.seq [sign, .atLeastOne (.one digits)]),
    .ofPattern "_float"
      (.seq [sign, .many (.one digits),
        .alt [.seq [.text ".", .atLeastOne (.one digits)], exponent,
          .seq [.text ".", .atLeastOne (.one digits), exponent]]]),
    (Token.ofPattern "unit" (.atLeastOne (.one (letters ++ .ofString "%")))).immediate,
    .fixed "[",
    .fixed "/",
    .ofPattern "name" name,
    .ofPattern "escape" escape,
    .ofPattern "keyword"
      (.seq [.text "@", .atLeastOne (.one (letters ++ .ofString "-_"))]),
    (Token.ofPattern "lineComment" (.seq [.text "//", .many (anyBut (.ofString "\n"))])).ranked (-1),
    .ofPattern "comment" comment,
    .ofPattern "word" word]

open Form

/-- The blanks between two simple selectors, where they stand for descent. -/
def descent : String := "_descent"

/-- The colon of a pseudo-class, as far as it can be told from that of a declaration. -/
def pseudoColon : String := "_pseudoColon"

/-- Never found in a text; it may only stand where nothing makes sense. -/
def nonsense : String := "_nonsense"

def statements : List Form :=
  ["declaration", "rule", "import", "media", "charset", "namespace", "frames", "supports",
    "scope"].map .ref

def list (part : Form) : Form := separated (.ref ",") part

def listOrNone (part : Form) : Form := opt (list part)

def selector : Form := .ref "_selector"

def value : Form := .ref "_value"

def query : Form := .ref "_query"

def nameAs (shown : String) : Form := .shownAs shown (.ref "name")

/-- Arguments that are read as selectors first, and as values otherwise. -/
def mixedArguments : Form :=
  .seq [.ref "arguments(",
    listOrNone (.choice [.favoured 1 selector, .atLeastOne value]), .ref ")"]

/-- The declaration without the semicolon. -/
def declarationBody : List Form :=
  [nameAs "property", .ref ":", value, many (.seq [opt (.ref ","), value]), opt (.ref "!important")]

def combined (mark : String) : Form :=
  .leftFirst (.seq [opt selector, .ref mark, selector])

def quoted (quote text : String) : Form :=
  .seq [.ref quote, many (.choice [.shownAs "text" (.ref text), .ref "escape"]), .ref quote]

def rules : List (String × Form) := [
  ("sheet", many (.choice (statements ++ [.ref "atRule"]))),
  ("import", .seq [.ref "@import", value, listOrNone query, .ref ";"]),
  ("media", .seq [.ref "@media", list query, .ref "block"]),
  ("charset", .seq [.ref "@charset", value, .ref ";"]),
  ("namespace", .seq [.ref "@namespace", opt (nameAs "namespaceName"),
    .choice [.ref "string", .ref "call"], .ref ";"]),
  ("frames", .seq [.choice [.ref "@keyframes", .shownAs "keyword" (.ref "_framesKeyword")],
    nameAs "framesName", .ref "frameList"]),
  ("frameList", .seq [.ref "\x7b", many (.ref "frame"), .ref "\x7d"]),
  ("frame", .seq [.choice [.ref "from", .ref "frameTo", .ref "integer"], .ref "block"]),
  ("frameTo", .ref "to"),
  ("supports", .seq [.ref "@supports", query, .ref "block"]),
  ("scope", .seq [.ref "@scope", opt (.seq [.ref "(", selector, .ref ")"]),
    opt (.seq [.ref "to", .ref "(", selector, .ref ")"]), .ref "block"]),
  ("valueStatement", .ranked (-1) (.seq [.ref "keyword", many value, .ref ";"])),
  ("atRule", .seq [.ref "keyword", listOrNone query, .choice [.ref ";", .ref "block"]]),
  ("rule", .seq [.ref "selectors", .ref "block"]),
  ("selectors", list selector),
  ("block", .seq [.ref "\x7b",
    many (.choice (statements ++ [.ref "valueStatement", .ref "atRule"])),
    opt (.shownAs "declaration" (.ref "lastDeclaration")), .ref "\x7d"]),
  ("_selector", .choice ([.ref "universal", nameAs "tag"] ++
    ["classSelector", "&", "pseudoClass", "pseudoElement", "idSelector", "attribute", "string",
      "child", "descendant", "sibling", "adjacent", "inNamespace"].map .ref)),
  ("universal", .ref "*"),
  ("classSelector", .ranked 1 (.seq [opt selector, .choice [.ref ".", .ref "&"], .ref "className"])),
  ("pseudoClass", .seq [opt selector, .shownAs ":" (.ref pseudoColon), .choice [
    .seq [.shownAs "className" (.choice (["has", "not", "is", "where", "host", "host-context"].map
      .ref)), .shownAs "arguments" (.ref "selectorArguments")],
    .seq [.shownAs "className" (.choice [.ref "nth-child", .ref "nth-last-child"]),
      .shownAs "arguments" (.ref "nthArguments")],
    .seq [.ref "className", opt (.shownAs "arguments" (.ref "pseudoClassArguments"))]]]),
  ("pseudoElement", .seq [opt selector, .ref "::", nameAs "tag",
    opt (.shownAs "arguments" (.ref "pseudoElementArguments"))]),
  ("idSelector", .seq [opt selector, .ref "#", nameAs "id"]),
  ("attribute", .seq [opt selector, .ref "attribute[",
    .shownAs "attributeName" (.choice [.ref "name", .ref "inNamespace"]),
    opt (.seq [.choice (["=", "~=", "^=", "|=", "*=", "$="].map .ref), value]), .ref "]"]),
  ("child", combined ">"),
  ("descendant", .leftFirst (.seq [selector, .ref descent, selector])),
  ("sibling", combined "~"),
  ("adjacent", combined "+"),
  ("inNamespace", combined "|"),
  ("selectorArguments", .seq [.ref "arguments(", listOrNone selector, .ref ")"]),
  ("pseudoClassArguments", mixedArguments),
  ("pseudoElementArguments", mixedArguments),
  ("_nth", .seq [.ref "_multiple",
    opt (.seq [.choice [.ref "+", .ref "-"], .ref "_digits"])]),
  ("nthArguments", .ranked (-1) (.seq [.ref "arguments(",
    .choice [.shownAs "word" (.ref "even"), .shownAs "word" (.ref "odd"), .ref "integer",
      .shownAs "word" (.ref "_nth")],
    opt (.seq [.ref "of", selector]), .ref ")"])),
  ("declaration", .seq (declarationBody ++ [.ref ";"])),
  ("lastDeclaration", .ranked 1 (.seq declarationBody)),
  ("_query", .choice ([nameAs "queryKeyword"] ++
    ["feature", "binaryQuery", "unaryQuery", "selectorQuery", "groupedQuery"].map .ref)),
  ("feature", .seq [.ref "(", nameAs "featureName", .ref ":", .atLeastOne value, .ref ")"]),
  ("groupedQuery", .seq [.ref "(", query, .ref ")"]),
  ("binaryQuery", .leftFirst (.seq [query, .choice [.ref "and", .ref "or"], query])),
  ("unaryQuery", .ranked 1 (.seq [.choice [.ref "not", .ref "only"], query])),
  ("selectorQuery", .seq [.ref "selector", .ref "(", selector, .ref ")"]),
  ("_value", .ranked (-1) (.choice ([nameAs "word"] ++
    ["word", "color", "integer", "float", "string", "grid", "operation", "grouped", "call",
      "!important"].map .ref))),
  ("grouped", .seq [.ref "(", value, .ref ")"]),
  ("color", .seq [.ref "#", .ref "_colorCode"]),
  ("string", .choice [quoted "'" "_stringInQuotes", quoted "\"" "_stringInDoubleQuotes"]),
  ("integer", .seq [.ref "_integer", opt (.ref "unit")]),
  ("float", .seq [.ref "_float", opt (.ref "unit")]),
  ("grid", .seq [.ref "[", list value, .ref "]"]),
  ("call", .seq [nameAs "functionName", .ref "arguments"]),
  ("operation", .leftFirst (.seq [value, .choice (["+", "-", "*", "/"].map .ref), value])),
  ("arguments", .seq [.ref "arguments(",
    opt (separated (.choice [.ref ",", .ref ";"]) (.atLeastOne value)), .ref ")"]),
  ("className", .atLeastOne (.choice [.ref "name", .ref "escape"]))]

def source : Source :=
  { tokens, outside := [descent, pseudoColon, nonsense], rules, extras := ["comment", "lineComment"] }

/-- Finds the blanks of a descent or the colon of a pseudo-class. -/
def finder : Finder := fun isSought cs =>
  let blanks := (cs.takeWhile isWideBlank).length
  let rest := cs.drop blanks
  if isSought 2 then none
  else if isSought 0 && 0 < blanks then
    if beginsSimple rest then some ⟨0, blanks, blanks⟩ else none
  else if isSought 1 && beginsPseudoClass rest then some ⟨1, blanks, blanks + 1⟩
  else none

/-- The language of stylesheets. Its table is worked out once, when it is first needed. -/
def language : Thunk Language := Thunk.mk fun _ => ⟨.ofSource source, finder⟩

end Retouch.Sheet.Syntax
