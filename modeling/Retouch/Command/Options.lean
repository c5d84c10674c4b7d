/-!
# Words of a command line

Words that begin with a dash are options, which may take a value: the next word, what follows an equals
sign, or what follows a short name directly. Short names without a value can be joined. Two dashes alone
end the options. Options and other words may stand in any order, unless the first other word ends them.
-/
namespace Retouch.Command

/-- An option under all its names. -/
structure OptionForm where
  /-- The name under which what was given is kept. -/
  key : String
  names : List String
  takesValue : Bool := false
  /-- Names that say the contrary. -/
  contrary : List String := []
  deriving DecidableEq, Repr

/-- What was given for an option. -/
inductive Given where
  | yes
  | no
  | text (s : String)
  deriving DecidableEq, Repr

/-- The words of a command line, sorted. -/
structure Words where
  options : List (String × Given) := []
  others : List String := []
  deriving DecidableEq, Repr

/-- What was given last for an option. -/
def Words.find? (words : Words) (key : String) : Option Given :=
  (words.options.reverse.find? fun entry => entry.1 == key).map Prod.snd

def Words.isSet (words : Words) (key : String) : Bool := words.find? key == some .yes

def Words.text? (words : Words) (key : String) : Option String :=
  match words.find? key with
  | some (.text s) => some s
  | _ => none

def Words.give (words : Words) (key : String) (given : Given) : Words :=
  { words with options := words.options ++ [(key, given)] }

/-- The option of a name, and whether the name says the contrary. -/
def formOf? (forms : List OptionForm) (name : String) : Option (OptionForm × Given) :=
  match forms.find? fun form => form.names.contains name with
  | some form => some (form, .yes)
  | none =>
    (forms.find? fun form => form.contrary.contains name).map fun form => (form, .no)

/-- The short options of a joined word; the rest of the word or the next one is the value of an option
that takes one. Nothing when there is no such option or no value. -/
def shortOptions (forms : List OptionForm) (words : Words) (rest : List String) :
    List Char → Option (Words × List String)
  | [] => some (words, rest)
  | c :: more =>
    match formOf? forms (String.ofList ['-', c]) with
    | none => none
    | some (form, given) =>
      if form.takesValue then
        if more.isEmpty then
          match rest with
          | value :: rest => some (words.give form.key (.text value), rest)
          | [] => none
        else some (words.give form.key (.text (String.ofList more)), rest)
      else shortOptions forms (words.give form.key given) rest more

/-- Takes an option apart; nothing when it is none of the forms. -/
def option? (forms : List OptionForm) (words : Words) (word : List Char) (rest : List String) :
    Option (Words × List String) :=
  let (name, value) := match word.span (· ≠ '=') with
    | (name, _ :: value) => (name, some (String.ofList value))
    | (name, []) => (name, none)
  match word with
  | '-' :: '-' :: _ =>
    match formOf? forms (String.ofList name), value with
    | none, _ => none
    | some (form, given), none =>
      if form.takesValue then
        match rest with
        | value :: rest => some (words.give form.key (.text value), rest)
        | [] => none
      else some (words.give form.key given, rest)
    | some (form, _), some value =>
      if form.takesValue then some (words.give form.key (.text value), rest) else none
  | _ => shortOptions forms words rest (word.drop 1)

def isOption (word : List Char) : Bool := word.head? = some '-' && word.length ≠ 1

/-- Sorts the words of a command line; `fuel` bounds their number. With `stops` the first word that is no
option ends the options. -/
def sortFrom (forms : List OptionForm) (stops : Bool) : Nat → Words → List String → Option Words
  | 0, words, _ => some words
  | _ + 1, words, [] => some words
  | fuel + 1, words, word :: rest =>
    if word = "--" then some { words with others := words.others ++ rest }
    else if isOption word.toList then
      match option? forms words word.toList rest with
      | some (words, rest) => sortFrom forms stops fuel words rest
      | none => none
    else if stops then some { words with others := words.others ++ word :: rest }
    else sortFrom forms stops fuel { words with others := words.others ++ [word] } rest

def sortWords (forms : List OptionForm) (stops : Bool) (words : List String) : Option Words :=
  sortFrom forms stops (words.length + 1) {} words

end Retouch.Command
