import Retouch.Proofs.Sheet.Extent

/-!
# Changes inside a rule

An edit of a rule replaces a part of what stands between its braces. Whether the rest of the sheet says the same
afterwards is seen when both texts are read along each other: up to the rule they have to pass the same items and
to open the same blocks, and inside of the rule they have to come to the same brace. Behind it nothing can differ,
for what is read of a text does not depend on what was read in front of it.

## Main statements

* `upTo_iff`: only the inside of a rule is read otherwise just if both texts are read the same up to it and come
  to the same brace.
* `Alters.lands`: then the sheet says the same, apart from the row of that rule.
-/
namespace Retouch.Sheet

variable {level : Level} {cs cs' mid mid' start start' head gap rest stop final : List Char} {kind : BlockKind}
  {item : Item} {items items' inner inner' : List Item} {count : Nat} {touch : List Entry → List Entry → Prop}
  {container : Option (String × String)}

/-! ### What items say -/

/-- The entry of a declaration. -/
def Item.entry? : Item → Option Entry
  | .declaration d => some ⟨d.name, Text.trim d.value, d.isImportant⟩
  | _ => none

/-- Whether an item is neither a gap nor a declaration. -/
def Item.isOther : Item → Bool
  | .gap _ => false
  | .declaration _ => false
  | _ => true

/-- The row of the declarations that stand directly among items. -/
def rowOf (items : List Item) : List Entry := items.filterMap Item.entry?

/-- The items apart from gaps and declarations. -/
def othersOf (items : List Item) : List Item := items.filter Item.isOther

theorem rowOf_placedFrom (offset : Nat) (items : List Item) :
    (placedFrom offset items).map Placed.entry = rowOf items := by
  induction items generalizing offset with
  | nil => rfl
  | cons item rest ih =>
    cases item with
    | declaration d => exact congrArg _ (ih _)
    | gap text => exact ih _
    | statement text => exact ih _
    | block kind head gap inner => exact ih _

/-- The name and the params of an at-rule. -/
def AtRule.label (a : AtRule) : String × String := (a.name, a.params)

mutual

/-- What the rules of an item say, directly inside `container`. -/
def Item.outlines (container : Option (String × String)) : Item → List Outline
  | .block kind head gap inner =>
    (if kind = .rule then [⟨Text.trim head, rowOf inner, container⟩] else []) ++
      outlinesOf ((kind.container? head gap 0).map AtRule.label) inner
  | .gap _ => []
  | .declaration _ => []
  | .statement _ => []
termination_by structural item => item

/-- What the rules of items say. -/
def outlinesOf (container : Option (String × String)) : List Item → List Outline
  | [] => []
  | item :: rest => item.outlines container ++ outlinesOf container rest
termination_by structural items => items

end

/-- Where an at-rule begins is no part of its label. -/
theorem label_container? (kind : BlockKind) (head gap : List Char) (offset : Nat) :
    (kind.container? head gap offset).map AtRule.label = (kind.container? head gap 0).map AtRule.label := by
  cases kind with
  | «at» keyword =>
    simp only [BlockKind.container?, atRule?]
    split <;> rfl
  | _ => rfl

mutual

theorem outline_rulesOf (container : Option AtRule) (offset : Nat) (item : Item) :
    (rulesOf container offset item).map Rule.outline = item.outlines (container.map AtRule.label) := by
  cases item with
  | block kind head gap inner =>
    rw [rulesOf, Item.outlines, List.map_append, outline_rulesFrom, label_container?]
    congr 1
    split
    · simp only [List.map_cons, List.map_nil, Rule.outline, placeRule, rowOf_placedFrom]
      rfl
    · rfl
  | _ => rfl
termination_by structural item

theorem outline_rulesFrom (container : Option AtRule) (offset : Nat) (items : List Item) :
    (rulesFrom container offset items).map Rule.outline = outlinesOf (container.map AtRule.label) items := by
  cases items with
  | nil => rfl
  | cons item rest => rw [rulesFrom, outlinesOf, List.map_append, outline_rulesOf, outline_rulesFrom]
termination_by structural items

end

/-- The rules come from the blocks alone. -/
theorem outlinesOf_others (items : List Item) : outlinesOf container (othersOf items) = outlinesOf container items := by
  induction items with
  | nil => rfl
  | cons item rest ih =>
    cases item with
    | gap text => exact ih
    | declaration d => exact ih
    | statement text => exact congrArg (Item.outlines container (.statement text) ++ ·) ih
    | block kind head gap inner => exact congrArg (Item.outlines container (.block kind head gap inner) ++ ·) ih

/-! ### How many rules there are -/

/-- A block is a rule itself, or none. -/
def BlockKind.rules (kind : BlockKind) : Nat := if kind = .rule then 1 else 0

mutual

/-- The number of rules of an item. -/
def Item.rules : Item → Nat
  | .block kind _ _ inner => kind.rules + rulesAmong inner
  | .gap _ => 0
  | .declaration _ => 0
  | .statement _ => 0
termination_by structural item => item

/-- The number of rules of items. -/
def rulesAmong : List Item → Nat
  | [] => 0
  | item :: rest => item.rules + rulesAmong rest
termination_by structural items => items

end

theorem length_own {α : Type} (kind : BlockKind) (a : α) :
    (if kind = .rule then [a] else []).length = kind.rules := by
  unfold BlockKind.rules
  split <;> rfl

mutual

theorem length_outlines (container : Option (String × String)) (item : Item) :
    (item.outlines container).length = item.rules := by
  cases item with
  | block kind head gap inner =>
    rw [Item.outlines, Item.rules, List.length_append, length_outlinesOf, length_own]
  | _ => rfl
termination_by structural item

theorem length_outlinesOf (container : Option (String × String)) (items : List Item) :
    (outlinesOf container items).length = rulesAmong items := by
  cases items with
  | nil => rfl
  | cons item rest => rw [outlinesOf, rulesAmong, List.length_append, length_outlines, length_outlinesOf]
termination_by structural items

end

theorem length_rulesOf (container : Option AtRule) (offset : Nat) (item : Item) :
    (rulesOf container offset item).length = item.rules := by
  rw [← length_outlines (container.map AtRule.label) item, ← outline_rulesOf container offset, List.length_map]

/-! ### Items of which a rule is changed -/

/-- Inside of a rule the row of declarations is changed as it may be, and all else but the gaps is the same. -/
structure Inside (touch : List Entry → List Entry → Prop) (inner inner' : List Item) : Prop where
  row : touch (rowOf inner) (rowOf inner')
  others : othersOf inner' = othersOf inner

/-- The same items, but for the inside of the rule of a number. -/
inductive Changed (touch : List Entry → List Entry → Prop) : Nat → List Item → List Item → Prop where
  | rule {head gap : List Char} {inner inner' rest : List Item} (inside : Inside touch inner inner') :
      Changed touch 0 (.block .rule head gap inner :: rest) (.block .rule head gap inner' :: rest)
  | into {kind : BlockKind} {head gap : List Char} {inner inner' rest : List Item} {count : Nat}
      (more : Changed touch count inner inner') :
      Changed touch (kind.rules + count) (.block kind head gap inner :: rest) (.block kind head gap inner' :: rest)
  | past {item : Item} {items items' : List Item} {count : Nat} (more : Changed touch count items items') :
      Changed touch (item.rules + count) (item :: items) (item :: items')

/-- The same items, but for those inside of the rule of a number, which begin behind so many characters. -/
inductive Refilled (inner inner' : List Item) : Nat → Nat → List Item → List Item → Prop where
  | rule {head gap : List Char} {rest : List Item} : Refilled inner inner' (head.length + gap.length + 1) 0
      (.block .rule head gap inner :: rest) (.block .rule head gap inner' :: rest)
  | into {kind : BlockKind} {head gap : List Char} {within within' rest : List Item} {place count : Nat}
      (more : Refilled inner inner' place count within within') :
      Refilled inner inner' (head.length + gap.length + 1 + place) (kind.rules + count)
        (.block kind head gap within :: rest) (.block kind head gap within' :: rest)
  | past {item : Item} {items items' : List Item} {place count : Nat}
      (more : Refilled inner inner' place count items items') :
      Refilled inner inner' (item.text.length + place) (item.rules + count) (item :: items) (item :: items')

theorem Refilled.changed {place : Nat} (refilled : Refilled inner inner' place count items items')
    (inside : Inside touch inner inner') : Changed touch count items items' := by
  induction refilled with
  | rule => exact .rule inside
  | into more ih => exact .into ih
  | past more ih => exact .past ih

/-- The items themselves declare the same. -/
theorem Changed.row (changed : Changed touch count items items') : rowOf items' = rowOf items := by
  induction changed with
  | rule inside => rfl
  | into more ih => rfl
  | @past item items items' count more ih =>
    unfold rowOf at ih ⊢
    rw [List.filterMap_cons, List.filterMap_cons, ih]

/-- The rules say the same, but for the row of that rule. -/
theorem Changed.outlines (changed : Changed touch count items items') (container : Option (String × String)) :
    ∃ front o behind row, outlinesOf container items = front ++ o :: behind ∧ touch o.entries row ∧
      outlinesOf container items' = front ++ { o with entries := row } :: behind ∧ front.length = count := by
  induction changed generalizing container with
  | @rule head gap inner inner' rest inside =>
    -- The blocks in the rule are the same, and so are the rules in it.
    have nested : outlinesOf none inner' = outlinesOf none inner := by
      rw [← outlinesOf_others, inside.others, outlinesOf_others]
    refine ⟨[], ⟨Text.trim head, rowOf inner, container⟩, outlinesOf none inner ++ outlinesOf container rest,
      rowOf inner', ?_, inside.row, ?_, rfl⟩
    · rw [outlinesOf, Item.outlines, if_pos rfl]
      simp [BlockKind.container?]
    · rw [outlinesOf, Item.outlines, if_pos rfl]
      simp [BlockKind.container?, nested]
  | @into kind head gap inner inner' rest count more ih =>
    obtain ⟨front, o, behind, row, whole, touched, whole', place⟩ := ih ((kind.container? head gap 0).map AtRule.label)
    refine ⟨(if kind = .rule then [⟨Text.trim head, rowOf inner, container⟩] else []) ++ front, o,
      behind ++ outlinesOf container rest, row, ?_, touched, ?_, ?_⟩
    · rw [outlinesOf, Item.outlines, whole]
      simp
    · rw [outlinesOf, Item.outlines, whole', more.row]
      simp
    · rw [List.length_append, length_own, place]
  | @past item items items' count more ih =>
    obtain ⟨front, o, behind, row, whole, touched, whole', place⟩ := ih container
    refine ⟨item.outlines container ++ front, o, behind, row, ?_, touched, ?_, ?_⟩
    · rw [outlinesOf, whole, List.append_assoc]
    · rw [outlinesOf, whole', List.append_assoc]
    · rw [List.length_append, length_outlines, place]

theorem modify_middle {α : Type} (front : List α) (o : α) (behind : List α) (f : α → α) :
    (front ++ o :: behind).modify front.length f = front ++ f o :: behind := by
  induction front with
  | nil => rfl
  | cons a front ih => rw [List.cons_append, List.length_cons, List.modify_succ_cons, ih, List.cons_append]

/-! ### Reading along -/

/-- The head of a block that a text begins with, and the text behind its brace. -/
structure Heads (level : Level) (cs : List Char) (kind : BlockKind) (head gap start : List Char) : Prop where
  here : AtItem cs
  none : readPlain level cs = none
  found : readHead level cs = some (kind, head, gap, start)

/-- Both texts are read the same up to the brace that opens the rule of a number, and go on with `mid` and
`mid'`. -/
inductive UpTo (mid mid' : List Char) : Nat → Level → List Char → List Char → Prop where
  | rule {level : Level} {cs cs' head gap : List Char} (heads : Heads level cs .rule head gap mid)
      (heads' : Heads level cs' .rule head gap mid') : UpTo mid mid' 0 level cs cs'
  | into {level : Level} {cs cs' head gap start start' : List Char} {kind : BlockKind} {count : Nat}
      (heads : Heads level cs kind head gap start) (heads' : Heads level cs' kind head gap start')
      (more : UpTo mid mid' count kind.inside start start') : UpTo mid mid' (kind.rules + count) level cs cs'
  | past {level : Level} {cs cs' next next' : List Char} {item : Item} {count : Nat}
      (reads : Reads level cs [item] next) (reads' : Reads level cs' [item] next')
      (more : UpTo mid mid' count level next next') : UpTo mid mid' (item.rules + count) level cs cs'

/-- A reading of items that ends where they stop is the only one. -/
theorem Reads.unique {stop' rest' : List Char} (reads : Reads level cs items stop) (ends : Stops level stop rest)
    (reads' : Reads level cs items' stop') (ends' : Stops level stop' rest') : items = items' ∧ stop = stop' := by
  have found := readItems_of_reads reads ends (Nat.lt_succ_self _)
  rw [readItems_of_reads reads' ends' (Nat.lt_succ_self _)] at found
  cases found
  exact ⟨rfl, reads.stop_unique reads'⟩

/-- Where items stop there is none. -/
theorem Stops.no_item (ends : Stops level cs rest) : ¬Reads level cs (item :: items) stop := by
  intro reads
  cases ends with
  | sheet =>
    cases reads with
    | gap cutting => cases cutting
    | plain here => exact here.2.1 rfl
    | block here => exact here.2.1 rfl
  | block inside =>
    cases reads with
    | gap cutting =>
      rw [cut_closing] at cutting
      cases cutting
    | plain here => exact here.2.2 rfl
    | block here => exact here.2.2 rfl

theorem readPlain_not_block (found : readPlain level cs = some (item, rest)) :
    item.isOther = true → ∃ text, item = .statement text := by
  unfold readPlain at found
  intro other
  split at found
  · cases found
  · split at found
    · obtain ⟨⟨text, behind⟩, -, same⟩ := Option.map_eq_some_iff.mp found
      cases same
      exact ⟨text, rfl⟩
    · obtain ⟨⟨d, behind⟩, -, same⟩ := Option.map_eq_some_iff.mp found
      cases same
      cases other

/-- A block is read from its head on. -/
theorem reads_block_iff : Reads level cs (.block kind head gap inner :: items) stop ↔
    ∃ start rest, Heads level cs kind head gap start ∧ Reads kind.inside start inner ('}' :: rest) ∧
      Reads level rest items stop := by
  constructor
  · intro reads
    cases reads with
    | plain here found more =>
      obtain ⟨text, same⟩ := readPlain_not_block found rfl
      cases same
    | block here none found inside more => exact ⟨_, _, ⟨here, none, found⟩, inside, more⟩
  · rintro ⟨start, rest, ⟨here, none, found⟩, inside, more⟩
    exact .block here none found inside more

/-- What stands behind a head is read as the inside of a block. -/
theorem Heads.reads (heads : Heads level cs kind head gap start) (reads : Reads level cs items stop)
    (ends : Stops level stop final) :
    ∃ inner rest more, items = .block kind head gap inner :: more ∧ Reads kind.inside start inner ('}' :: rest) ∧
      Reads level rest more stop := by
  obtain ⟨here, none, found⟩ := heads
  cases reads with
  | nil =>
    cases ends with
    | sheet => exact absurd rfl here.2.1
    | block inside => exact absurd rfl here.2.2
  | gap cutting more =>
    have bare := here.1
    rw [cutting] at bare
    cases bare
  | plain _ plain more =>
    rw [none] at plain
    cases plain
  | block _ _ found' inside more =>
    rw [found] at found'
    cases found'
    exact ⟨_, _, _, rfl, inside, more⟩

/-- An item that a text begins with is the first one of its reading. -/
theorem Reads.first {next : List Char} (one : Reads level cs [item] next) (reads : Reads level cs items stop)
    (ends : Stops level stop final) : ∃ more, items = item :: more ∧ Reads level next more stop := by
  cases one with
  | @gap _ _ blanks _ _ c _ cutting none =>
    cases none
    cases reads with
    | nil => exact absurd (.gap cutting .nil) ends.no_item
    | gap cutting' more =>
      rw [cutting] at cutting'
      cases cutting'
      exact ⟨_, rfl, more⟩
    | plain here =>
      have bare := here.1
      rw [cutting] at bare
      cases bare
    | block here =>
      have bare := here.1
      rw [cutting] at bare
      cases bare
  | plain here found none =>
    cases none
    cases reads with
    | nil => exact absurd (.plain here found .nil) ends.no_item
    | gap cutting =>
      have bare := here.1
      rw [cutting] at bare
      cases bare
    | plain _ found' more =>
      rw [found] at found'
      cases found'
      exact ⟨_, rfl, more⟩
    | block _ other =>
      rw [found] at other
      cases other
  | block here other found inside none =>
    cases none
    obtain ⟨inner, rest, more, rfl, inside', reads'⟩ := Heads.reads ⟨here, other, found⟩ reads ends
    obtain ⟨rfl, same⟩ := inside.unique (.block (BlockKind.inside_ne_sheet _)) inside'
      (.block (BlockKind.inside_ne_sheet _))
    cases same
    exact ⟨more, rfl, reads'⟩

theorem getElem?_middle {α : Type} {xs ys zs : List α} {place : Nat} {a : α} (there : ys[place]? = some a) :
    (xs ++ ys ++ zs)[xs.length + place]? = some a := by
  rw [List.append_assoc, List.getElem?_append_right (Nat.le_add_right _ _), Nat.add_sub_cancel_left,
    List.getElem?_append_left (List.getElem?_eq_some_iff.mp there).1, there]

/-- Two texts that are read the same up to a rule are the same up to its brace, which is that of the rule of this
number. -/
theorem UpTo.placed (upTo : UpTo mid mid' count level cs cs') (reads : Reads level cs items stop)
    (ends : Stops level stop final) (container : Option AtRule) (front : List Char) :
    ∃ before rule inner rest, front ++ cs = before ++ mid ∧ front ++ cs' = before ++ mid' ∧
      (rulesFrom container front.length items)[count]? = some rule ∧ rule.innerStart = before.length ∧
      rule.closing = before.length + (textOf inner).length ∧ Reads .block mid inner ('}' :: rest) := by
  induction upTo generalizing items stop final container front with
  | @rule level cs cs' head gap heads heads' =>
    obtain ⟨inner, rest, more, rfl, inside, -⟩ := heads.reads reads ends
    refine ⟨front ++ head ++ gap ++ ['{'], placeRule container front.length head gap inner, inner, rest, ?_, ?_, ?_, ?_,
      ?_, inside⟩
    · rw [← readHead_text _ _ _ _ _ _ heads.found]
      simp
    · rw [← readHead_text _ _ _ _ _ _ heads'.found]
      simp
    · rw [rulesFrom, rulesOf, if_pos rfl]
      rfl
    · simp [placeRule, Nat.add_assoc]
    · simp [placeRule, Nat.add_assoc]
  | @into level cs cs' head gap start start' kind count heads heads' more ih =>
    obtain ⟨inner, rest, items', rfl, inside, -⟩ := heads.reads reads ends
    obtain ⟨before, rule, inner', rest', whole, whole', there, opens, closes, reads'⟩ :=
      ih inside (.block kind.inside_ne_sheet) (kind.container? head gap front.length) (front ++ head ++ gap ++ ['{'])
    refine ⟨before, rule, inner', rest', ?_, ?_, ?_, opens, closes, reads'⟩
    · rw [← whole, ← readHead_text _ _ _ _ _ _ heads.found]
      simp
    · rw [← whole', ← readHead_text _ _ _ _ _ _ heads'.found]
      simp
    · have offset : (front ++ head ++ gap ++ ['{']).length = front.length + head.length + gap.length + 1 := by
        simp [Nat.add_assoc]
      rw [offset] at there
      rw [rulesFrom, rulesOf, ← length_own kind (placeRule container front.length head gap inner)]
      exact getElem?_middle there
  | @past level cs cs' next next' item count one one' more ih =>
    obtain ⟨items', rfl, reads'⟩ := one.first reads ends
    obtain ⟨before, rule, inner', rest', whole, whole', there, opens, closes, reads''⟩ :=
      ih reads' ends container (front ++ item.text)
    have text := one.text
    have text' := one'.text
    rw [textOf, textOf, List.append_nil] at text text'
    refine ⟨before, rule, inner', rest', ?_, ?_, ?_, opens, closes, reads''⟩
    · rw [← whole, ← text, List.append_assoc]
    · rw [← whole', ← text', List.append_assoc]
    · rw [List.length_append] at there
      have later := @getElem?_middle _ (rulesOf container front.length item) _ [] _ _ there
      rwa [length_rulesOf, List.append_nil] at later

/-- Where both texts are read the same up to a rule and come to the same brace from there, they are read as the same
items, but for the inside of this rule. -/
theorem UpTo.refills (upTo : UpTo mid mid' count level cs cs') (reads : Reads level cs items stop)
    (ends : Stops level stop final) (within : Reads .block mid inner ('}' :: rest))
    (within' : Reads .block mid' inner' ('}' :: rest)) :
    ∃ place items', Reads level cs' items' stop ∧ Refilled inner inner' place count items items' := by
  induction upTo generalizing items stop final with
  | @rule level cs cs' head gap heads heads' =>
    obtain ⟨own, last, more, rfl, reads'', behind⟩ := heads.reads reads ends
    obtain ⟨rfl, same⟩ := within.unique (.block (by decide)) reads'' (.block (by decide))
    obtain rfl : rest = last := (List.cons.inj same).2
    exact ⟨_, _, reads_block_iff.mpr ⟨mid', rest, heads', within', behind⟩, .rule⟩
  | @into level cs cs' head gap start start' kind count heads heads' more ih =>
    obtain ⟨own, last, items, rfl, reads'', behind⟩ := heads.reads reads ends
    obtain ⟨place, own', reads', refilled⟩ := ih reads'' (.block kind.inside_ne_sheet)
    exact ⟨_, _, reads_block_iff.mpr ⟨start', last, heads', reads', behind⟩, .into refilled⟩
  | @past level cs cs' next next' item count one one' more ih =>
    obtain ⟨items, rfl, behind⟩ := one.first reads ends
    obtain ⟨place, items', reads', refilled⟩ := ih behind ends
    exact ⟨_, _, one'.append reads', .past refilled⟩

/-- Only the inside of the rule of a number is read otherwise, just if both texts are read the same up to it, and
what stands behind its brace comes to the same brace. -/
theorem upTo_iff (reads : Reads level cs items stop) (ends : Stops level stop final) :
    (∃ items', Reads level cs' items' stop ∧ Changed touch count items items') ↔
      ∃ mid mid' inner inner' rest, UpTo mid mid' count level cs cs' ∧ Reads .block mid inner ('}' :: rest) ∧
        Reads .block mid' inner' ('}' :: rest) ∧ Inside touch inner inner' := by
  constructor
  · rintro ⟨items', reads', changed⟩
    induction changed generalizing level cs cs' stop final with
    | @rule head gap inner inner' more inside =>
      obtain ⟨start, rest, heads, within, behind⟩ := reads_block_iff.mp reads
      obtain ⟨start', rest', heads', within', behind'⟩ := reads_block_iff.mp reads'
      -- The same items stand behind the brace, so the same text.
      obtain rfl : rest = rest' := behind.text.symm.trans behind'.text
      exact ⟨start, start', inner, inner', rest, .rule heads heads', within, within', inside⟩
    | @into kind head gap inner inner' more count changed ih =>
      obtain ⟨start, rest, heads, within, behind⟩ := reads_block_iff.mp reads
      obtain ⟨start', rest', heads', within', behind'⟩ := reads_block_iff.mp reads'
      obtain rfl : rest = rest' := behind.text.symm.trans behind'.text
      obtain ⟨mid, mid', own, own', last, upTo, rest⟩ := ih within (.block kind.inside_ne_sheet) within'
      exact ⟨mid, mid', own, own', last, .into heads heads' upTo, rest⟩
    | @past item items items' count changed ih =>
      obtain ⟨next, one, more⟩ := (@reads_append_iff _ _ _ [item] _).mp reads
      obtain ⟨next', one', more'⟩ := (@reads_append_iff _ _ _ [item] _).mp reads'
      obtain ⟨mid, mid', own, own', last, upTo, rest⟩ := ih more ends more'
      exact ⟨mid, mid', own, own', last, .past one one' upTo, rest⟩
  · rintro ⟨mid, mid', inner, inner', rest, upTo, within, within', inside⟩
    obtain ⟨place, items', reads', refilled⟩ := upTo.refills reads ends within within'
    exact ⟨items', reads', refilled.changed inside⟩

/-! ### Sheets -/

variable {sheet after : Sheet} {rule : Rule} {index : Nat} {front behind mark : List Char}

/-- The second sheet is read as the first one, but for the row of the rule of a number, which is changed as it may
be. -/
def Alters (sheet after : Sheet) (index : Nat) (touch : List Entry → List Entry → Prop) : Prop :=
  ∃ items items', parse? sheet.source = some items ∧ parse? after.source = some items' ∧ Changed touch index items items'

/-- Both texts are read the same up to the brace that opens a rule, and from there on to the one that closes it, as
items of which only the row of declarations and the gaps differ. -/
structure ReadsAlike (sheet after : Sheet) (rule : Rule) (index : Nat) (touch : List Entry → List Entry → Prop) :
    Prop where
  front : UpTo (sheet.source.drop rule.innerStart) (after.source.drop rule.innerStart) index .sheet
    (withoutMark sheet.source) (withoutMark after.source)
  body : ∃ inner inner', Reads .block (sheet.source.drop rule.innerStart) inner (sheet.source.drop rule.closing) ∧
    Reads .block (after.source.drop rule.innerStart) inner' (sheet.source.drop rule.closing) ∧
      Inside touch inner inner'

mutual

/-- The inside of a rule begins right behind the brace. -/
theorem innerStart_of_rulesOf {container : Option AtRule} {offset : Nat} (item : Item)
    (member : rule ∈ rulesOf container offset item) : rule.innerStart = rule.opening + 1 := by
  cases item with
  | block kind head gap inner =>
    rw [rulesOf, List.mem_append] at member
    rcases member with own | nested
    · split at own
      · obtain rfl := List.mem_singleton.mp own
        rfl
      · cases own
    · exact innerStart_of_rulesFrom inner nested
  | _ => cases member
termination_by structural item

theorem innerStart_of_rulesFrom {container : Option AtRule} {offset : Nat} (items : List Item)
    (member : rule ∈ rulesFrom container offset items) : rule.innerStart = rule.opening + 1 := by
  cases items with
  | nil => cases member
  | cons item rest =>
    rw [rulesFrom, List.mem_append] at member
    rcases member with first | later
    · exact innerStart_of_rulesOf item first
    · exact innerStart_of_rulesFrom rest later
termination_by structural items

end

theorem rules_of_parse (parsed : parse? sheet.source = some items) : sheet.rules = rulesFrom none 0 items := by
  rw [Sheet.rules, sheet.read, Content.ofChars, parsed]
  rfl

/-- What is replaced in a rule stands between its braces. -/
theorem Spliced.between_braces (sound : sheet.hasError = false) (member : rule ∈ sheet.rules)
    (spliced : Spliced sheet rule after) : ∃ inside,
      after.source = sheet.source.take rule.innerStart ++ inside ++ sheet.source.drop rule.closing := by
  obtain ⟨first, last, new, rfl, opens, order, closes⟩ := spliced
  obtain ⟨items, parsed, -⟩ := (hasError_eq_false sheet).mp sound
  have begins := innerStart_of_rulesFrom items (rules_of_parse parsed ▸ member)
  have size : rule.closing < sheet.source.length :=
    (List.getElem?_eq_some_iff.mp (embraced_of_sound sound member).closes).1
  refine ⟨between sheet.source rule.innerStart first ++ new ++ between sheet.source last rule.closing, ?_⟩
  rw [splice, ofChars, ← take_between (by omega : rule.innerStart ≤ first),
    ← between_drop closes (Nat.le_of_lt size)]
  simp only [List.append_assoc]

/-- A sheet of which only the row of a rule is altered says the same, apart from this row. -/
theorem Alters.lands (alters : Alters sheet after index touch) (there : sheet.rules[index]? = some rule) :
    ∃ row, touch rule.outline.entries row ∧ Lands sheet after index fun _ => row := by
  obtain ⟨items, items', parsed, parsed', changed⟩ := alters
  obtain ⟨front, o, behind, row, whole, touched, whole', place⟩ := changed.outlines none
  have told : sheet.outline = front ++ o :: behind := by
    rw [outline, rules_of_parse parsed, outline_rulesFrom, Option.map_none, whole]
  have same : sheet.outline[index]? = some rule.outline := by
    rw [outline, List.getElem?_map, there]
    rfl
  rw [told, ← place, List.getElem?_append_right (Nat.le_refl _), Nat.sub_self] at same
  obtain rfl : o = rule.outline := Option.some.inj same
  -- Apart from this outline both rows of outlines are the same.
  refine ⟨row, touched, ?_⟩
  rw [Lands, told, outline, rules_of_parse parsed', outline_rulesFrom, Option.map_none, whole', ← place, modify_middle]

theorem changed_gapItems : Changed touch count (gapItems mark ++ items) (gapItems mark ++ items') ↔
    Changed touch count items items' := by
  cases mark with
  | nil => rfl
  | cons c mark =>
    constructor
    · intro changed
      cases changed with
      | past more => simpa [Item.rules] using more
    · intro changed
      have past := @Changed.past touch (.gap (c :: mark)) _ _ _ changed
      simpa [gapItems, Item.rules] using past

/-- Texts that begin the same have the same mark. -/
theorem parse_front (filled : front ≠ []) : ∃ mark, ∀ behind, mark ++ withoutMark (front ++ behind) = front ++ behind ∧
    ∀ items, parse? (front ++ behind) = some items ↔
      ∃ read, items = gapItems mark ++ read ∧ Reads .sheet (withoutMark (front ++ behind)) read [] := by
  have parses {mark cs : List Char} (whole : mark ++ withoutMark cs = cs) (items : List Item) : parse? cs = some items ↔
      ∃ read, items = gapItems mark ++ read ∧ Reads .sheet (withoutMark cs) read [] := by
    have cutting : cut cs (withoutMark cs) = (mark, withoutMark cs) := by
      conv => lhs; arg 1; rw [← whole]
      simp [cut]
    rw [parse_eq_some_iff, cutting]
    constructor
    · rintro ⟨_, _, read, ⟨⟩, same, reads⟩
      exact ⟨read, same, reads⟩
    · rintro ⟨read, same, reads⟩
      exact ⟨_, _, read, rfl, same, reads⟩
  cases front with
  | nil => exact absurd rfl filled
  | cons c front =>
    by_cases marked : c = '\ufeff'
    · subst marked
      exact ⟨['\ufeff'], fun behind => ⟨rfl, parses rfl⟩⟩
    · have bare (behind : List Char) : withoutMark (c :: front ++ behind) = c :: front ++ behind := by
        unfold withoutMark
        split
        · rename_i same
          exact absurd (List.cons.inj same).1 marked
        · rfl
      exact ⟨[], fun behind => ⟨bare behind, parses (bare behind)⟩⟩

/-- A sheet with another text between the braces of a rule is read behind the same mark. -/
theorem Spliced.parses (spliced : Spliced sheet rule after) (sound : sheet.hasError = false)
    (member : rule ∈ sheet.rules) : ∃ mark read, mark ++ withoutMark sheet.source = sheet.source ∧
      mark ++ withoutMark after.source = after.source ∧ parse? sheet.source = some (gapItems mark ++ read) ∧
      Reads .sheet (withoutMark sheet.source) read [] ∧ ∀ items, parse? after.source = some items ↔
        ∃ read', items = gapItems mark ++ read' ∧ Reads .sheet (withoutMark after.source) read' [] := by
  obtain ⟨items, parsed, -⟩ := (hasError_eq_false sheet).mp sound
  have embraced := embraced_of_sound sound member
  obtain ⟨inside, text⟩ := spliced.between_braces sound member
  have size : rule.closing < sheet.source.length := (List.getElem?_eq_some_iff.mp embraced.closes).1
  have order := embraced.inner
  have filled := embraced.filled
  have length : (sheet.source.take rule.innerStart).length = rule.innerStart := by
    rw [List.length_take]
    omega
  have begins : sheet.source.take rule.innerStart ++ after.source.drop rule.innerStart = after.source := by
    have same : after.source.take rule.innerStart = sheet.source.take rule.innerStart := by
      rw [text, List.append_assoc, List.take_left' length]
    rw [← same, List.take_append_drop]
  -- Both texts begin with what stands in front of the inside, so with the same mark, or with none.
  obtain ⟨mark, parses⟩ := @parse_front (sheet.source.take rule.innerStart) (List.ne_nil_of_length_pos (by omega))
  obtain ⟨marked, read_iff⟩ := parses (sheet.source.drop rule.innerStart)
  obtain ⟨marked', read_iff'⟩ := parses (after.source.drop rule.innerStart)
  rw [List.take_append_drop] at marked read_iff
  rw [begins] at marked' read_iff'
  obtain ⟨read, rfl, reads⟩ := (read_iff items).mp parsed
  exact ⟨mark, read, marked, marked', parsed, reads, read_iff'⟩

/-- The rule that two texts lead up to is the one of the number. -/
theorem UpTo.places {read : List Item} (upTo : UpTo mid mid' index .sheet (withoutMark sheet.source)
      (withoutMark after.source)) (marked : mark ++ withoutMark sheet.source = sheet.source)
    (marked' : mark ++ withoutMark after.source = after.source)
    (parsed : parse? sheet.source = some (gapItems mark ++ read))
    (reads : Reads .sheet (withoutMark sheet.source) read []) (there : sheet.rules[index]? = some rule) :
    mid = sheet.source.drop rule.innerStart ∧ mid' = after.source.drop rule.innerStart ∧
      ∀ {inner rest}, Reads .block mid inner ('}' :: rest) → '}' :: rest = sheet.source.drop rule.closing := by
  obtain ⟨before, rule', inner', rest', whole, whole', there', opens, closes, reads'⟩ :=
    upTo.placed reads .sheet none mark
  have same : sheet.rules = rulesFrom none mark.length read := by
    rw [rules_of_parse parsed]
    cases mark with
    | nil => rfl
    | cons c mark => simp [gapItems, rulesFrom, rulesOf, Item.text]
  rw [same, there'] at there
  obtain rfl := Option.some.inj there
  rw [marked] at whole
  rw [marked'] at whole'
  refine ⟨?_, ?_, fun {inner rest} within => ?_⟩
  · rw [whole, opens, List.drop_left]
  · rw [whole', opens, List.drop_left]
  · obtain ⟨rfl, -⟩ := within.unique (.block (by decide)) reads' (.block (by decide))
    rw [closes, whole, ← within.text, ← List.append_assoc, ← List.length_append, List.drop_left]

/-- The brace that closes a rule of a sheet without errors. -/
theorem drop_closing (sound : sheet.hasError = false) (member : rule ∈ sheet.rules) :
    ∃ rest, sheet.source.drop rule.closing = '}' :: rest := by
  have closes := (embraced_of_sound sound member).closes
  have size := (List.getElem?_eq_some_iff.mp closes).1
  rw [List.getElem?_eq_getElem size] at closes
  exact ⟨_, by rw [List.drop_eq_getElem_cons size, Option.some.inj closes]⟩

/-- With another text between the braces of a rule, the sheet is read as the same items but for those in the rule, if
the text is read the same up to the rule, and its inside up to the same brace. -/
theorem Spliced.refills (spliced : Spliced sheet rule after) (sound : sheet.hasError = false)
    (there : sheet.rules[index]? = some rule)
    (upTo : UpTo (sheet.source.drop rule.innerStart) (after.source.drop rule.innerStart) index .sheet
      (withoutMark sheet.source) (withoutMark after.source))
    (within : Reads .block (sheet.source.drop rule.innerStart) inner (sheet.source.drop rule.closing))
    (within' : Reads .block (after.source.drop rule.innerStart) inner' (sheet.source.drop rule.closing)) :
    ∃ place items items', parse? sheet.source = some items ∧ parse? after.source = some items' ∧
      Refilled inner inner' place index items items' := by
  have member := List.mem_of_getElem? there
  obtain ⟨mark, read, -, -, parsed, reads, read_iff⟩ := spliced.parses sound member
  obtain ⟨rest, closes⟩ := drop_closing sound member
  rw [closes] at within within'
  obtain ⟨place, read', reads', refilled⟩ := upTo.refills reads .sheet within within'
  refine ⟨mark.length + place, _, _, parsed, (read_iff _).mpr ⟨read', rfl, reads'⟩, ?_⟩
  cases mark with
  | nil => simpa [gapItems] using refilled
  | cons c mark =>
    simpa [gapItems, Item.rules, Item.text] using @Refilled.past _ _ (.gap (c :: mark)) _ _ _ _ refilled

/-- With another text between the braces of a rule, only its row is altered just if the text is read the same up to
the rule, and its inside is read as the other row, up to the same brace. -/
theorem alters_iff (sound : sheet.hasError = false) (there : sheet.rules[index]? = some rule)
    (spliced : Spliced sheet rule after) :
    Alters sheet after index touch ↔ ReadsAlike sheet after rule index touch := by
  have member := List.mem_of_getElem? there
  constructor
  · rintro ⟨items, items', parsed, parsed', changed⟩
    obtain ⟨mark, read, marked, marked', parsed'', reads, read_iff⟩ := spliced.parses sound member
    obtain rfl := Option.some.inj (parsed.symm.trans parsed'')
    obtain ⟨read', rfl, reads'⟩ := (read_iff items').mp parsed'
    obtain ⟨mid, mid', inner, inner', rest, upTo, within, within', inside⟩ :=
      (upTo_iff reads .sheet).mp ⟨read', reads', changed_gapItems.mp changed⟩
    obtain ⟨rfl, rfl, closes⟩ := upTo.places marked marked' parsed reads there
    have brace := closes within
    rw [brace] at within within'
    exact ⟨upTo, inner, inner', within, within', inside⟩
  · rintro ⟨upTo, inner, inner', within, within', inside⟩
    obtain ⟨place, items, items', parsed, parsed', refilled⟩ := spliced.refills sound there upTo within within'
    exact ⟨items, items', parsed, parsed', refilled.changed inside⟩

end Retouch.Sheet
