import Retouch.Grammar.Strand

/-!
# Finding the next token

The next token is the longest one that the state of a strand looks for. Where there is none, all tokens
of the first state are looked for, and what comes before the first of them is noise.
-/
namespace Retouch.Grammar

/-- A stretch of a text that was found: what it is, and the offsets where it begins and ends. -/
structure Found where
  symbol : Nat
  start : Nat
  stop : Nat

/-- A way to find tokens without patterns: told which of the outside tokens are sought, and what follows
in the text, it gives the number of one, and how far on it begins and ends. -/
abbrev Finder := (Nat → Bool) → List Char → Option Found

/-- A grammar that texts can be read by. -/
structure Language where
  table : Table
  finder : Finder

/-- A text that is read: its characters, and the places before and behind them. -/
structure Page where
  chars : List Char
  codes : Array Nat
  places : Array Extent

def Page.ofChars (chars : List Char) : Page :=
  let codes := (chars.map Char.toNat).toArray
  ⟨chars, codes, Extent.places codes⟩

def Page.place (page : Page) (offset : Nat) : Extent := page.places.getD offset {}

/-- The mark that may stand at the beginning of a text and belongs to nothing. -/
def byteOrderMark : Nat := 0xfeff

def Page.skipMark (page : Page) (offset : Nat) : Nat :=
  if offset = 0 && page.codes[0]? == some byteOrderMark then 1 else offset

/-- A search for a token: where the token begins, whether it has begun, the last one found, and how far
the search went. -/
structure Pursuit where
  start : Nat
  begun : Bool
  found : Option Found
  reached : Nat

/-- Follows the cursors as far as they lead. -/
def Table.pursue (table : Table) (page : Page) (seesEnd : Bool) :
    Nat → Nat → Pursuit → Pursuit
  | 0, _, pursuit => pursuit
  | fuel + 1, number, pursuit =>
    let cursor := table.cursors.getD number ⟨none, []⟩
    let pursuit := match cursor.token with
      | some symbol => { pursuit with found := some ⟨symbol, pursuit.start, pursuit.reached⟩ }
      | none => pursuit
    match page.codes[pursuit.reached]? with
    | none =>
      if seesEnd && !pursuit.begun && pursuit.found.isNone then
        { pursuit with found := some ⟨endOfText, pursuit.reached, pursuit.reached⟩ }
      else pursuit
    | some code =>
      match cursor.onward.find? fun (set, _) => set.contains code with
      | none => pursuit
      | some (_, next, blank) =>
        let reached := pursuit.reached + 1
        if blank then
          table.pursue page seesEnd fuel next { pursuit with start := reached, reached }
        else table.pursue page seesEnd fuel next { pursuit with begun := true, reached }

/-- Looks for the tokens of a sight from an offset on. -/
def Table.look (table : Table) (page : Page) (sight : Nat) (offset : Nat) : Pursuit :=
  let sight := table.sights.getD sight ⟨0, false⟩
  let start := page.skipMark offset
  table.pursue page sight.seesEnd (page.codes.size + 1) sight.cursor ⟨start, false, none, start⟩

namespace Language

variable (language : Language) (page : Page)

def sightOf (state : Nat) : Nat := language.table.sightOf.getD state 0

def outsideOf (state : Nat) : SymbolSet := language.table.outsideOf.getD state 0

/-- The node of what was found behind an offset. -/
def leafOf (offset state : Nat) (found : Found) : Tree :=
  language.table.leaf found.symbol
    (.between (page.place offset) (page.place found.start))
    (.between (page.place found.start) (page.place found.stop)) state

/-- The outside token that a state finds. -/
def findOutside (state offset : Nat) : Option Found :=
  let outside := language.outsideOf state
  let first := 1 + language.table.plan.tokens
  let start := page.skipMark offset
  if outside = 0 then none
  else
    (language.finder (fun number => SymbolSet.contains outside (first + number))
      (page.chars.drop start)).map fun found =>
        ⟨first + found.symbol, start + found.start, start + found.stop⟩

/-- The token that a state finds by its pattern, or how far the search went. -/
def findInside (state offset : Nat) : Except Nat Found :=
  let pursuit := language.table.look page (language.sightOf state) offset
  match pursuit.found with
  | some found => .ok found
  | none => .error pursuit.reached

/-- The token that a state finds first: one from outside, or one by its pattern. A token without a
character is only taken where that leads on. -/
def findFor (state offset : Nat) (takesEmpty : Bool) : Except Nat Found :=
  match language.findOutside page state offset with
  | some found =>
    if found.stop ≤ offset && !takesEmpty then language.findInside page state offset else .ok found
  | none => language.findInside page state offset

/-- Where noise goes on behind a search without success: where the search ended, but at least one
character on, unless the text is over. -/
def behindSearch (stop reached : Nat) : Option Nat :=
  if reached ≠ stop then some reached
  else if stop < page.codes.size then some (stop + 1)
  else none

/-- Where noise ends that goes on at an offset: where a token of the first state begins. -/
def noiseStop : Nat → Nat → Nat
  | 0, stop => stop
  | fuel + 1, stop =>
    match language.findFor page 0 stop false with
    | .ok _ => stop
    | .error reached =>
      match behindSearch page stop reached with
      | some next => noiseStop fuel next
      | none => stop

/-- The noise from an offset on, where the search for a token ended without success. -/
def noiseFrom (offset reached : Nat) : Found :=
  let start := (language.table.look page (language.sightOf 0) offset).start
  let stop := match behindSearch page start reached with
    | some next => language.noiseStop page (page.codes.size + 2) next
    | none => start
  ⟨language.table.plan.noise, start, stop⟩

/-- The token or the noise from an offset on. -/
def scan (state offset : Nat) (takesEmpty : Bool) : Tree :=
  let ofFirstState : Found :=
    match language.findFor page 0 offset false with
    | .ok found => found
    | .error reached => language.noiseFrom page offset reached
  let found := if state = 0 then ofFirstState
    else match language.findFor page state offset takesEmpty with
      | .ok found => found
      | .error _ => ofFirstState
  language.leafOf page offset state found

/-- Whether a token that another state found is what a state would find. -/
def canReuse (state : Nat) (token : Tree) : Bool :=
  let table := language.table
  let known := !(table.actionsOn state token.symbol).isEmpty
  if known && language.sightOf token.label.state = language.sightOf state &&
      language.outsideOf token.label.state = language.outsideOf state then true
  else if token.label.size.chars = 0 && token.symbol ≠ endOfText then false
  else language.outsideOf state = 0 && known &&
    SymbolSet.contains (table.certainOf.getD state 0) token.symbol

end Language

end Retouch.Grammar
