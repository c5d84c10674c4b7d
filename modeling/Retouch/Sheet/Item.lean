import Retouch.Sheet.QueryForm

/-!
# The items of a stylesheet

A stylesheet is a row of items: gaps, declarations, statements of at-rules, and blocks that hold items
themselves. Items keep every character, so that a sheet can be edited in one place and left alone
everywhere else. A sheet with a part that makes no sense has no items. Main statement: `textOf_parse`,
the texts of the items of a text are that text.
-/
namespace Retouch.Sheet

/-- A declaration: what stands before, behind and around its colon. -/
structure DeclarationItem where
  name : List Char
  /-- Blanks and comments before the colon. -/
  gap : List Char
  /-- All that stands between the colon and the mark of importance or the end. -/
  value : List Char
  /-- The mark of importance that comes last and all behind it, if there is one. -/
  mark : List Char
  /-- Whether a semicolon ends it. -/
  ended : Bool
  deriving DecidableEq, Repr

/-- What a block is. -/
inductive BlockKind where
  /-- A style rule. -/
  | rule
  /-- The list of blocks of an animation. -/
  | frames
  /-- One step of an animation. -/
  | frame
  /-- Any other at-rule, with its keyword. -/
  | at (keyword : List Char)
  deriving DecidableEq, Repr

/-- A part of a stylesheet. -/
inductive Item where
  | gap (text : List Char)
  | declaration (d : DeclarationItem)
  | statement (text : List Char)
  /-- A block: its head, the blanks and comments behind it, and what stands between the braces. -/
  | block (kind : BlockKind) (head gap : List Char) (inner : List Item)
  deriving Repr

namespace DeclarationItem

def text (d : DeclarationItem) : List Char :=
  d.name ++ d.gap ++ ':' :: d.value ++ d.mark ++ (if d.ended then [';'] else [])

def isImportant (d : DeclarationItem) : Bool := !d.mark.isEmpty

end DeclarationItem

/-! ## Reading -/

/-- The rest behind the colon of a declaration, of which the name was read: not the colon of a
pseudo-class. `fuel` bounds the number of comments before it. -/
def dropColon : Nat → List Char → Option (List Char)
  | 0, _ => none
  | fuel + 1, cs =>
    let near := cs.dropWhile Text.isPlainBlank
    if (dropDescent cs).isSome || beginsPseudoClass cs then none
    else
      match dropComment .outside near with
      | some rest => dropColon fuel rest
      | none =>
        match near with
        | ':' :: ':' :: _ => none
        | ':' :: rest => some rest
        | _ => none

/-- A declaration at the beginning of a text, with the text behind it. In a block, the last one may be
without a semicolon. -/
def readDeclaration (inBlock : Bool) (cs : List Char) : Option (DeclarationItem × List Char) :=
  match dropName cs with
  | none => none
  | some named =>
    let (name, rest) := cut cs named
    match dropColon (rest.length + 1) rest with
    | none => none
    | some behind =>
      let (gap, rest) := rest.splitAt (rest.length - behind.length - 1)
      match rest with
      | ':' :: body =>
        match dropDeclared none (body.length + 1) (dropGap .value body) with
        | none => none
        | some (stop, mark) =>
          let isOpen := inBlock && (dropGap .series stop).head? = some '}'
          let stop := if isOpen then stop else dropGap .series stop
          let (whole, rest) := cut body stop
          let (value, mark) := cut whole (whole.drop (body.length - (mark.getD stop).length))
          if isOpen then some (⟨name, gap, value, mark, false⟩, rest)
          else
            match rest with
            | ';' :: rest => some (⟨name, gap, value, mark, true⟩, rest)
            | _ => none
      | _ => none

/-- The rest of an at-rule from the semicolon on, if that is its end. In a block, values can stand where
queries do otherwise. -/
def dropToSemicolon (inBlock : Bool) (cs : List Char) : Option (List Char) :=
  let keyword := keywordOf cs
  let behind := cs.drop keyword.length
  match dropPrelude inBlock keyword behind with
  | none => none
  | some (rest, ending) =>
    let stop := dropGap ending.spot rest
    if ending.semicolon && stop.head? = some ';' then some stop
    else if inBlock && ending.semicolon && ending.block then
      (dropValuePrelude behind).map (dropGap .series)
    else none

/-- A statement of an at-rule that begins with a keyword, with the text behind it. -/
def readStatement (inBlock : Bool) (cs : List Char) : Option (List Char × List Char) :=
  match (dropToSemicolon inBlock cs).map (cut cs) with
  | some (text, ';' :: rest) => some (text ++ [';'], rest)
  | _ => none

/-- What a place in a sheet can hold. -/
inductive Level where
  | sheet
  | block
  | frames
  deriving DecidableEq, Repr

/-- The spot behind a step of an animation: behind a unit a slash is an operator. -/
def spotOfStep (cs rest : List Char) : Spot :=
  if (before cs rest).getLast?.any isUnitChar then .single else .outside

/-- The kind of the block that a text begins with, the rest behind its head, and the spot before its
brace. -/
def dropHead (level : Level) (cs : List Char) : Option (BlockKind × List Char × Spot) :=
  let keyword := keywordOf cs
  if level = .frames then
    match (dropText "from" cs).or (dropText "to" cs) with
    | some rest => some (.frame, rest, .outside)
    | none => (dropInteger cs).map fun rest => (.frame, rest, spotOfStep cs rest)
  else if keyword.isEmpty then (dropSelectors cs).map (.rule, ·, .outside)
  else if isFramesKeyword keyword then
    (dropName (dropGap .outside (cs.drop keyword.length))).map (.frames, ·, .outside)
  else
    match dropPrelude (level = .block) keyword (cs.drop keyword.length) with
    | some (rest, ending) => if ending.block then some (.at keyword, rest, ending.spot) else none
    | none => none

/-- The head of a block with its kind, the gap behind it, and the text behind its brace. -/
def readHead (level : Level) (cs : List Char) :
    Option (BlockKind × List Char × List Char × List Char) :=
  match dropHead level cs with
  | none => none
  | some (kind, stop, spot) =>
    let (head, rest) := cut cs stop
    let (gap, rest) := cut rest (dropGap spot rest)
    match rest with
    | '{' :: inner => some (kind, head, gap, inner)
    | _ => none

/-- An item without a block. -/
def readPlain (level : Level) (cs : List Char) : Option (Item × List Char) :=
  match level with
  | .frames => none
  | _ =>
    if cs.head? = some '@' then
      (readStatement (level = .block) cs).map fun (text, rest) => (.statement text, rest)
    else (readDeclaration (level = .block) cs).map fun (d, rest) => (.declaration d, rest)

/-- Items with what follows them. -/
structure Reading where
  items : List Item
  rest : List Char

def Reading.push (item : Item) (r : Reading) : Reading := { r with items := item :: r.items }

/-- The level inside a block. -/
def BlockKind.inside : BlockKind → Level
  | .frames => .frames
  | _ => .block

/-- Reads items up to the brace that closes the block around them, or up to the end of the sheet. `fuel`
bounds the number of items. -/
def readItems (level : Level) : Nat → List Char → Option Reading
  | 0, _ => none
  | fuel + 1, cs =>
    match cut cs (dropGap .outside cs) with
    | (g :: gap, rest) => (readItems level fuel rest).map (Reading.push (.gap (g :: gap)))
    | ([], _) =>
      match cs with
      | [] => if level = .sheet then some ⟨[], []⟩ else none
      | '}' :: rest => if level = .sheet then none else some ⟨[], rest⟩
      | _ =>
        match readPlain level cs with
        | some (item, rest) => (readItems level fuel rest).map (Reading.push item)
        | none =>
          match readHead level cs with
          | none => none
          | some (kind, head, gap, inner) =>
            match readItems kind.inside fuel inner with
            | none => none
            | some ⟨items, rest⟩ =>
              (readItems level fuel rest).map (Reading.push (.block kind head gap items))

/-- A text without the mark that may stand in front of it. -/
def withoutMark : List Char → List Char
  | '\ufeff' :: rest => rest
  | cs => cs

/-- The items of a text, unless some part of it makes no sense. -/
def parse? (cs : List Char) : Option (List Item) :=
  match cut cs (withoutMark cs) with
  | (m :: mark, rest) => (readItems .sheet (rest.length + 1) rest).map fun r => .gap (m :: mark) :: r.items
  | ([], rest) => (readItems .sheet (rest.length + 1) rest).map Reading.items

/-! ## The text of items -/

mutual

def Item.text : Item → List Char
  | .gap text => text
  | .declaration d => d.text
  | .statement text => text
  | .block _ head gap inner => head ++ gap ++ '{' :: textOf inner ++ ['}']
termination_by structural item => item

def textOf : List Item → List Char
  | [] => []
  | item :: rest => item.text ++ textOf rest
termination_by structural items => items

end

/-! ## Nothing is lost -/

theorem textOf_append (xs ys : List Item) : textOf (xs ++ ys) = textOf xs ++ textOf ys := by
  induction xs with
  | nil => rfl
  | cons x xs ih => simp [textOf, ih]

theorem readDeclaration_text (inBlock : Bool) (cs rest : List Char) (d : DeclarationItem)
    (found : readDeclaration inBlock cs = some (d, rest)) : d.text ++ rest = cs := by
  unfold readDeclaration at found
  split at found
  · cases found
  · rename_i named _
    have front := cut_append cs named
    generalize cut cs named = parts at found front
    obtain ⟨name, behindName⟩ := parts
    simp only at found front
    split at found
    · cases found
    · rename_i behind _
      have middle := List.take_append_drop (behindName.length - behind.length - 1) behindName
      rw [List.splitAt_eq] at found
      generalize behindName.take (behindName.length - behind.length - 1) = colonGap at found middle
      generalize behindName.drop (behindName.length - behind.length - 1) = behindGap at found middle
      simp only at found
      split at found
      · rename_i body
        split at found
        · cases found
        · rename_i stop mark _
          generalize (if (inBlock && decide ((dropGap .series stop).head? = some '}')) = true
            then stop else dropGap .series stop) = last at found
          have whole := cut_append body last
          generalize cut body last = parts at found whole
          obtain ⟨all, behindAll⟩ := parts
          simp only at found whole
          have inner := cut_append all (all.drop (body.length - (mark.getD last).length))
          generalize cut all (all.drop (body.length - (mark.getD last).length)) = parts at found inner
          obtain ⟨value, importance⟩ := parts
          simp only at found inner
          have joined : name ++ colonGap ++ ':' :: value ++ importance ++ behindAll = cs := by
            rw [← front, ← middle, ← whole, ← inner]
            simp
          split at found
          · simp only [Option.some.injEq, Prod.mk.injEq] at found
            obtain ⟨rfl, rfl⟩ := found
            simpa [DeclarationItem.text] using joined
          · split at found
            · simp only [Option.some.injEq, Prod.mk.injEq] at found
              obtain ⟨rfl, rfl⟩ := found
              simpa [DeclarationItem.text] using joined
            · cases found
      · cases found

theorem readStatement_text (inBlock : Bool) (cs text rest : List Char)
    (found : readStatement inBlock cs = some (text, rest)) : text ++ rest = cs := by
  unfold readStatement at found
  split at found
  · rename_i front behind cutting
    simp only [Option.some.injEq, Prod.mk.injEq] at found
    obtain ⟨rfl, rfl⟩ := found
    obtain ⟨stop, _, same⟩ := Option.map_eq_some_iff.mp cutting
    have whole := cut_append cs stop
    rw [same] at whole
    simpa using whole
  · cases found

theorem readPlain_text (level : Level) (cs rest : List Char) (item : Item)
    (found : readPlain level cs = some (item, rest)) : item.text ++ rest = cs := by
  unfold readPlain at found
  split at found
  · cases found
  · split at found
    · obtain ⟨⟨text, behind⟩, read, same⟩ := Option.map_eq_some_iff.mp found
      cases same
      exact readStatement_text _ _ _ _ read
    · obtain ⟨⟨d, behind⟩, read, same⟩ := Option.map_eq_some_iff.mp found
      cases same
      exact readDeclaration_text _ _ _ _ read

theorem readHead_text (level : Level) (cs head gap inner : List Char) (kind : BlockKind)
    (found : readHead level cs = some (kind, head, gap, inner)) :
    head ++ gap ++ '{' :: inner = cs := by
  unfold readHead at found
  split at found
  · cases found
  · rename_i stop spot _
    have front := cut_append cs stop
    generalize cut cs stop = parts at found front
    obtain ⟨first, behind⟩ := parts
    simp only at found front
    have second := cut_append behind (dropGap spot behind)
    generalize cut behind (dropGap spot behind) = parts at found second
    obtain ⟨blanks, more⟩ := parts
    simp only at found second
    split at found
    · simp only [Option.some.injEq, Prod.mk.injEq] at found
      obtain ⟨_, rfl, rfl, rfl⟩ := found
      rw [← front, ← second]
      simp
    · cases found

/-- What a reading took and left, put together; a block also took its brace. -/
def Reading.text (level : Level) (r : Reading) : List Char :=
  textOf r.items ++ if level = .sheet then r.rest else '}' :: r.rest

theorem Reading.text_push (level : Level) (item : Item) (r : Reading) :
    (r.push item).text level = item.text ++ r.text level := by
  simp [Reading.text, Reading.push, textOf]

theorem BlockKind.inside_ne_sheet (kind : BlockKind) : kind.inside ≠ .sheet := by
  cases kind <;> simp [BlockKind.inside]

theorem readItems_text (level : Level) (fuel : Nat) (cs : List Char) (r : Reading)
    (found : readItems level fuel cs = some r) : r.text level = cs := by
  induction fuel generalizing level cs r with
  | zero => cases found
  | succ fuel ih =>
    unfold readItems at found
    split at found
    · rename_i g gap rest cutting
      obtain ⟨more, read, rfl⟩ := Option.map_eq_some_iff.mp found
      have whole := cut_append cs (dropGap .outside cs)
      rw [cutting] at whole
      rw [Reading.text_push, ih _ _ _ read]
      exact whole
    · split at found
      · split at found
        · rename_i outside
          cases found
          simp [Reading.text, textOf, outside]
        · cases found
      · split at found
        · cases found
        · rename_i inside
          cases found
          simp [Reading.text, textOf, inside]
      · split at found
        · rename_i item rest plain
          obtain ⟨more, read, rfl⟩ := Option.map_eq_some_iff.mp found
          rw [Reading.text_push, ih _ _ _ read]
          exact readPlain_text _ _ _ _ plain
        · split at found
          · cases found
          · rename_i kind head gap inner headRead
            split at found
            · cases found
            · rename_i items rest innerRead
              obtain ⟨more, read, rfl⟩ := Option.map_eq_some_iff.mp found
              have inner := ih _ _ _ innerRead
              simp only [Reading.text, kind.inside_ne_sheet, if_false] at inner
              rw [Reading.text_push, ih _ _ _ read, ← readHead_text _ _ _ _ _ _ headRead, ← inner]
              simp [Item.text]

/-- A reading of a whole sheet leaves nothing. -/
theorem readItems_rest (fuel : Nat) (cs : List Char) (r : Reading)
    (found : readItems .sheet fuel cs = some r) : r.rest = [] := by
  induction fuel generalizing cs r with
  | zero => cases found
  | succ fuel ih =>
    unfold readItems at found
    split at found
    · obtain ⟨more, read, rfl⟩ := Option.map_eq_some_iff.mp found
      simpa [Reading.push] using ih _ _ read
    · split at found
      · simp at found
        rw [← found]
      · simp at found
      · split at found
        · obtain ⟨more, read, rfl⟩ := Option.map_eq_some_iff.mp found
          simpa [Reading.push] using ih _ _ read
        · split at found
          · cases found
          · split at found
            · cases found
            · obtain ⟨more, read, rfl⟩ := Option.map_eq_some_iff.mp found
              simpa [Reading.push] using ih _ _ read

/-- The texts of the items of a text are that text. -/
theorem textOf_parse (cs : List Char) (items : List Item) (found : parse? cs = some items) :
    textOf items = cs := by
  have read (fuel : Nat) (cs : List Char) (r : Reading)
      (found : readItems .sheet fuel cs = some r) : textOf r.items = cs := by
    have whole := readItems_text _ _ _ _ found
    simpa [Reading.text, readItems_rest _ _ _ found] using whole
  have whole := cut_append cs (withoutMark cs)
  unfold parse? at found
  split at found
  · rename_i cutting
    obtain ⟨r, inner, rfl⟩ := Option.map_eq_some_iff.mp found
    rw [cutting] at whole
    simpa only [textOf, Item.text, read _ _ _ inner] using whole
  · rename_i cutting
    obtain ⟨r, inner, rfl⟩ := Option.map_eq_some_iff.mp found
    rw [cutting] at whole
    simpa only [List.nil_append, read _ _ _ inner] using whole

end Retouch.Sheet
