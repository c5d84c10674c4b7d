import Retouch.Sheet.Item

/-!
# How items are read

What reading items comes to, apart from the bound on their number: a relation with one rule for each kind of
item, from a text to the text behind the items. Items are read one after the other, and what is read depends
on the text alone, so a reading can be cut behind any item and put together again.

## Main statements

* `readItems_eq_some_iff`: the bounded reader finds just what the relation says, when the bound is above the
  length of the text.
* `parse_eq_some_iff`: the items of a text are its mark and what is read behind it.
* `reads_append_iff`: a reading can be cut between items.
-/
namespace Retouch.Sheet

/-- Whether a text begins with an item that is not a gap. -/
def AtItem (cs : List Char) : Prop :=
  (cut cs (dropGap .outside cs)).1 = [] ∧ cs ≠ [] ∧ cs.head? ≠ some '}'

/-- Items that a text begins with, and the text behind them. -/
inductive Reads : Level → List Char → List Item → List Char → Prop where
  | nil {level : Level} {cs : List Char} : Reads level cs [] cs
  | gap {level : Level} {cs blanks rest stop : List Char} {c : Char} {items : List Item}
      (cutting : cut cs (dropGap .outside cs) = (c :: blanks, rest)) (more : Reads level rest items stop) :
      Reads level cs (.gap (c :: blanks) :: items) stop
  | plain {level : Level} {cs rest stop : List Char} {item : Item} {items : List Item} (here : AtItem cs)
      (found : readPlain level cs = some (item, rest)) (more : Reads level rest items stop) :
      Reads level cs (item :: items) stop
  | block {level : Level} {cs head gap start rest stop : List Char} {kind : BlockKind}
      {inner items : List Item} (here : AtItem cs) (none : readPlain level cs = none)
      (found : readHead level cs = some (kind, head, gap, start))
      (inside : Reads kind.inside start inner ('}' :: rest)) (more : Reads level rest items stop) :
      Reads level cs (.block kind head gap inner :: items) stop

/-- Where the items of a level end: at the end of the sheet, or at the brace that closes a block. -/
inductive Stops : Level → List Char → List Char → Prop where
  | sheet : Stops .sheet [] []
  | block {level : Level} {rest : List Char} (inside : level ≠ .sheet) : Stops level ('}' :: rest) rest

variable {level : Level} {cs rest stop : List Char} {items : List Item}

theorem Stops.inside (ends : Stops level stop rest) (inside : level ≠ .sheet) : stop = '}' :: rest := by
  cases ends with
  | sheet => exact absurd rfl inside
  | block => rfl

theorem Stops.outside (ends : Stops .sheet stop rest) : stop = [] := by
  cases ends with
  | sheet => rfl
  | block inside => exact absurd rfl inside

/-! ### Every item takes some of the text -/

theorem readPlain_shorter {item : Item} (found : readPlain level cs = some (item, rest)) :
    rest.length < cs.length := by
  rw [← readPlain_text level cs rest item found]
  have filled : item.text ≠ [] := by
    unfold readPlain at found
    split at found
    · cases found
    · split at found
      · obtain ⟨⟨text, behind⟩, read, same⟩ := Option.map_eq_some_iff.mp found
        cases same
        unfold readStatement at read
        split at read
        · cases read
          simp [Item.text]
        · cases read
      · obtain ⟨⟨d, behind⟩, -, same⟩ := Option.map_eq_some_iff.mp found
        cases same
        simp [Item.text, DeclarationItem.text]
  have := List.length_pos_iff.mpr filled
  rw [List.length_append]
  omega

theorem readHead_shorter {kind : BlockKind} {head gap start : List Char}
    (found : readHead level cs = some (kind, head, gap, start)) : start.length < cs.length := by
  rw [← readHead_text level cs head gap start kind found]
  simp only [List.length_append, List.length_cons]
  omega

theorem cut_shorter {blanks : List Char} {c : Char}
    (cutting : cut cs (dropGap .outside cs) = (c :: blanks, rest)) : rest.length < cs.length := by
  have whole := cut_append cs (dropGap .outside cs)
  rw [cutting] at whole
  rw [← whole]
  simp only [List.length_append, List.length_cons]
  omega

/-- The text of items and what follows them are what they were read from. -/
theorem Reads.text (reads : Reads level cs items stop) : textOf items ++ stop = cs := by
  induction reads with
  | nil => rfl
  | @gap _ cs _ _ _ _ _ cutting more ih =>
    have whole := cut_append cs (dropGap .outside cs)
    rw [cutting] at whole
    rw [textOf, Item.text, List.append_assoc, ih, whole]
  | plain here found more ih =>
    rw [textOf, List.append_assoc, ih]
    exact readPlain_text _ _ _ _ found
  | block here none found inside more inner ih =>
    rw [textOf, List.append_assoc, ih, Item.text, ← readHead_text _ _ _ _ _ _ found, ← inner]
    simp

/-! ### The bounded reader -/

theorem readItems_gap {blanks : List Char} {c : Char} (fuel : Nat)
    (cutting : cut cs (dropGap .outside cs) = (c :: blanks, rest)) :
    readItems level (fuel + 1) cs = (readItems level fuel rest).map (Reading.push (.gap (c :: blanks))) := by
  conv => lhs; unfold readItems
  rw [cutting]

/-- In front of an item that is no gap the reader takes it, and a block only when nothing else is there. -/
theorem readItems_item (fuel : Nat) (here : AtItem cs) :
    readItems level (fuel + 1) cs =
      match readPlain level cs with
      | some (item, rest) => (readItems level fuel rest).map (Reading.push item)
      | none =>
        match readHead level cs with
        | none => none
        | some (kind, head, gap, inner) =>
          match readItems kind.inside fuel inner with
          | none => none
          | some ⟨items, rest⟩ =>
            (readItems level fuel rest).map (Reading.push (.block kind head gap items)) := by
  obtain ⟨bare, filled, open'⟩ := here
  conv => lhs; unfold readItems
  rcases cutting : cut cs (dropGap .outside cs) with ⟨_ | ⟨c, blanks⟩, behind⟩
  · rcases cs with _ | ⟨c, cs⟩
    · exact absurd rfl filled
    · have other : c ≠ '}' := fun same => open' (by rw [same]; rfl)
      split
      · rename_i same
        cases same
      · rename_i same
        cases same
        split
        · rename_i same
          cases same
        · rename_i same
          exact absurd (List.cons.inj same).1 other
        · rfl
  · rw [cutting] at bare
    cases bare

theorem cut_closing (rest : List Char) : cut ('}' :: rest) (dropGap .outside ('}' :: rest)) = ([], '}' :: rest) := by
  have same : dropGap .outside ('}' :: rest) = '}' :: rest := by simp [dropGap, beginsGap, Text.isPlainBlank]
  rw [same]
  simp [cut]

/-- The end of a text ends a sheet. -/
theorem readItems_empty (fuel : Nat) :
    readItems level (fuel + 1) [] = if level = .sheet then some ⟨[], []⟩ else none := rfl

/-- A closing brace ends a block. -/
theorem readItems_closing (fuel : Nat) :
    readItems level (fuel + 1) ('}' :: rest) = if level = .sheet then none else some ⟨[], rest⟩ := by
  conv => lhs; unfold readItems
  rw [cut_closing]
  rfl

/-- At the end of the items the reader stops. -/
theorem readItems_stop (fuel : Nat) (ends : Stops level cs rest) :
    readItems level (fuel + 1) cs = some ⟨[], rest⟩ := by
  cases ends with
  | sheet => rw [readItems_empty, if_pos rfl]
  | block inside => rw [readItems_closing, if_neg inside]

/-- What the bounded reader finds is a reading. -/
theorem reads_of_readItems {fuel : Nat} {r : Reading} (found : readItems level fuel cs = some r) :
    ∃ stop, Stops level stop r.rest ∧ Reads level cs r.items stop := by
  induction fuel generalizing level cs r with
  | zero => cases found
  | succ fuel ih =>
    rcases cutting : cut cs (dropGap .outside cs) with ⟨_ | ⟨c, blanks⟩, behind⟩
    · rcases cs with _ | ⟨c, rest⟩
      · rw [readItems_empty] at found
        split at found
        · rename_i outside
          subst outside
          cases Option.some.inj found
          exact ⟨[], .sheet, .nil⟩
        · cases found
      · by_cases closing : c = '}'
        · subst closing
          rw [readItems_closing] at found
          split at found
          · cases found
          · rename_i inside
            cases Option.some.inj found
            exact ⟨_, .block inside, .nil⟩
        · have here : AtItem (c :: rest) :=
            ⟨by rw [cutting], List.cons_ne_nil c rest, fun same => closing (Option.some.inj same)⟩
          rw [readItems_item fuel here] at found
          split at found
          · rename_i item rest plain
            obtain ⟨more, read, rfl⟩ := Option.map_eq_some_iff.mp found
            obtain ⟨stop, ends, reads⟩ := ih read
            exact ⟨stop, ends, .plain here plain reads⟩
          · rename_i none
            split at found
            · cases found
            · rename_i kind head gap inner headRead
              split at found
              · cases found
              · rename_i items rest innerRead
                obtain ⟨more, read, rfl⟩ := Option.map_eq_some_iff.mp found
                obtain ⟨stop, ends, reads⟩ := ih read
                obtain ⟨closing, innerEnds, inside⟩ := ih innerRead
                rcases innerEnds.inside kind.inside_ne_sheet with rfl
                exact ⟨stop, ends, .block here none headRead inside reads⟩
    · rw [readItems_gap fuel cutting] at found
      obtain ⟨more, read, rfl⟩ := Option.map_eq_some_iff.mp found
      obtain ⟨stop, ends, reads⟩ := ih read
      exact ⟨stop, ends, .gap cutting reads⟩

/-- A reading is found when the bound is above the length of the text. -/
theorem readItems_of_reads (reads : Reads level cs items stop) (ends : Stops level stop rest) {fuel : Nat}
    (enough : cs.length < fuel) : readItems level fuel cs = some ⟨items, rest⟩ := by
  induction reads generalizing fuel rest with
  | nil =>
    obtain ⟨fuel, rfl⟩ : ∃ n, fuel = n + 1 := ⟨fuel - 1, by omega⟩
    exact readItems_stop fuel ends
  | gap cutting more ih =>
    obtain ⟨fuel, rfl⟩ : ∃ n, fuel = n + 1 := ⟨fuel - 1, by omega⟩
    have shorter := cut_shorter cutting
    rw [readItems_gap fuel cutting, ih ends (by omega)]
    rfl
  | plain here found more ih =>
    obtain ⟨fuel, rfl⟩ : ∃ n, fuel = n + 1 := ⟨fuel - 1, by omega⟩
    have shorter := readPlain_shorter found
    rw [readItems_item fuel here, found]
    dsimp only
    rw [ih ends (by omega)]
    rfl
  | @block level cs head gap start rest' stop kind inner items here none found inside more innerIh ih =>
    obtain ⟨fuel, rfl⟩ : ∃ n, fuel = n + 1 := ⟨fuel - 1, by omega⟩
    have shorter := readHead_shorter found
    have within := congrArg List.length inside.text
    simp only [List.length_append, List.length_cons] at within
    rw [readItems_item fuel here, none]
    dsimp only
    rw [found]
    dsimp only
    rw [innerIh (.block kind.inside_ne_sheet) (by omega)]
    dsimp only
    rw [ih ends (by omega)]
    rfl

theorem readItems_eq_some_iff {fuel : Nat} (enough : cs.length < fuel) :
    readItems level fuel cs = some ⟨items, rest⟩ ↔ ∃ stop, Stops level stop rest ∧ Reads level cs items stop := by
  constructor
  · intro found
    exact reads_of_readItems found
  · rintro ⟨stop, ends, reads⟩
    exact readItems_of_reads reads ends enough

/-! ### Whole sheets -/

/-- The item of a gap, if there is any text to it. -/
def gapItems : List Char → List Item
  | [] => []
  | c :: mark => [.gap (c :: mark)]

/-- A sheet is read to its end. -/
theorem readSheet_eq_some_iff {read : List Item} :
    (readItems .sheet (cs.length + 1) cs).map Reading.items = some read ↔ Reads .sheet cs read [] := by
  constructor
  · intro found
    obtain ⟨r, inner, rfl⟩ := Option.map_eq_some_iff.mp found
    obtain ⟨stop, ends, reads⟩ := reads_of_readItems inner
    rcases ends.outside with rfl
    exact reads
  · intro reads
    rw [readItems_of_reads reads .sheet (Nat.lt_succ_self _)]
    rfl

/-- The items of a text are its mark and what is read behind it. -/
theorem parse_eq_some_iff :
    parse? cs = some items ↔
      ∃ mark body read, cut cs (withoutMark cs) = (mark, body) ∧ items = gapItems mark ++ read ∧
        Reads .sheet body read [] := by
  have split : parse? cs = ((readItems .sheet ((cut cs (withoutMark cs)).2.length + 1)
      (cut cs (withoutMark cs)).2).map Reading.items).map (gapItems (cut cs (withoutMark cs)).1 ++ ·) := by
    unfold parse?
    rcases cut cs (withoutMark cs) with ⟨_ | ⟨c, mark⟩, body⟩
    · simp [gapItems, Option.map_map, Function.comp_def]
    · simp [gapItems, Option.map_map, Function.comp_def]
  rw [split]
  constructor
  · intro found
    obtain ⟨read, inner, rfl⟩ := Option.map_eq_some_iff.mp found
    exact ⟨_, _, read, rfl, rfl, readSheet_eq_some_iff.mp inner⟩
  · rintro ⟨mark, body, read, cutting, rfl, reads⟩
    rw [cutting]
    exact Option.map_eq_some_iff.mpr ⟨read, readSheet_eq_some_iff.mpr reads, rfl⟩

/-! ### Cutting a reading -/

theorem Reads.append {first second : List Item} {middle : List Char} (early : Reads level cs first middle)
    (late : Reads level middle second stop) : Reads level cs (first ++ second) stop := by
  induction early with
  | nil => exact late
  | gap cutting more ih => exact .gap cutting (ih late)
  | plain here found more ih => exact .plain here found (ih late)
  | block here none found inside more _ ih => exact .block here none found inside (ih late)

/-- A reading can be cut between items. -/
theorem reads_append_iff {first second : List Item} :
    Reads level cs (first ++ second) stop ↔
      ∃ middle, Reads level cs first middle ∧ Reads level middle second stop := by
  constructor
  · intro reads
    induction first generalizing cs with
    | nil => exact ⟨cs, .nil, reads⟩
    | cons item first ih =>
      cases reads with
      | gap cutting more =>
        obtain ⟨middle, early, late⟩ := ih more
        exact ⟨middle, .gap cutting early, late⟩
      | plain here found more =>
        obtain ⟨middle, early, late⟩ := ih more
        exact ⟨middle, .plain here found early, late⟩
      | block here none found inside more =>
        obtain ⟨middle, early, late⟩ := ih more
        exact ⟨middle, .block here none found inside early, late⟩
  · rintro ⟨middle, early, late⟩
    exact early.append late

/-- The same items leave the same text. -/
theorem Reads.stop_unique {other : List Char} (one : Reads level cs items stop)
    (two : Reads level cs items other) : stop = other :=
  List.append_cancel_left (one.text.trans two.text.symm)

end Retouch.Sheet
