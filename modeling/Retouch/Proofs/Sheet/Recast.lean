import Retouch.Proofs.Sheet.Edited

/-!
# What stands around a declaration that is changed

When the value of one declaration gives way to another, the declarations in front of it stay where they are, and those
behind it are moved by the difference. So an edit that was planned for another declaration, before this one was changed,
finds the same declaration afterwards, at offsets that are known.

## Main statements

* `Recast.at`: the rule of a number is recast if it declares what is changed, and else it is aside.
* `Refilled.recast`: the rules of items in which one declaration is exchanged for another one.
* `recast_of_settable`: where a value is put in the place of another one as it should be, all else is moved only.
-/
namespace Retouch.Sheet

variable {p q q' : Placed} {last' offset place count index : Nat} {items items' : List Item}
  {container container' : Option AtRule} {d d' : DeclarationItem} {early more : List Item} {gap gap' : List Char}
  {rules rules' front front' : List Rule} {rule : Rule}

/-! ### Declarations apart from one -/

/-- A declaration that stands behind `last`, when this offset becomes another one. -/
def Placed.moved (last last' : Nat) (q : Placed) : Placed :=
  { q with
    start := q.start - last + last', stop := q.stop - last + last'
    valueStart := q.valueStart - last + last', valueStop := q.valueStop - last + last' }

/-- A declaration that lies apart from `p`, and the same one when the text of `p` ends at another offset. -/
inductive Placed.Aside (p : Placed) (last' : Nat) : Placed → Placed → Prop where
  | front {q : Placed} (before : q.stop ≤ p.start) : Placed.Aside p last' q q
  | behind {q : Placed} (after : p.stop ≤ q.start) : Placed.Aside p last' q (q.moved p.stop last')

/-- A rule that does not declare `p`, and the same one when the text of `p` ends at another offset. -/
structure Rule.Aside (p : Placed) (last' : Nat) (r r' : Rule) : Prop where
  selector : r'.selector = r.selector
  declared : List.Forall₂ (Placed.Aside p last') r.declarations r'.declarations

/-- A rule that declares `p`, and the same one with another declaration of the property in its place, the text of
which ends at another offset. -/
structure Rule.Recast (p : Placed) (last' : Nat) (r r' : Rule) : Prop where
  selector : r'.selector = r.selector
  declared : ∃ early early' own late late', r.declarations = early ++ p :: late ∧
    r'.declarations = early' ++ own :: late' ∧ own.property = p.property ∧
      List.Forall₂ (Placed.Aside p last') early early' ∧ List.Forall₂ (Placed.Aside p last') late late'

/-- Rules of which the one of a number is recast. -/
inductive Recast (p : Placed) (last' : Nat) : Nat → List Rule → List Rule → Prop where
  | here {r r' : Rule} {rest rest' : List Rule} (own : Rule.Recast p last' r r')
      (behind : List.Forall₂ (Rule.Aside p last') rest rest') : Recast p last' 0 (r :: rest) (r' :: rest')
  | past {r r' : Rule} {rest rest' : List Rule} {index : Nat} (aside : Rule.Aside p last' r r')
      (more : Recast p last' index rest rest') : Recast p last' (index + 1) (r :: rest) (r' :: rest')

theorem Recast.append {behind behind' : List Rule} (recast : Recast p last' index rules rules')
    (aside : List.Forall₂ (Rule.Aside p last') behind behind') :
    Recast p last' index (rules ++ behind) (rules' ++ behind') := by
  induction recast with
  | here own rest => exact .here own (List.rel_append rest aside)
  | past first more ih => exact .past first ih

theorem Recast.behind (aside : List.Forall₂ (Rule.Aside p last') front front')
    (recast : Recast p last' index rules rules') :
    Recast p last' (front.length + index) (front ++ rules) (front' ++ rules') := by
  induction aside with
  | nil => simpa using recast
  | cons first rest ih =>
    rw [List.length_cons, Nat.add_right_comm]
    exact .past first ih

theorem Recast.sameSelectors (recast : Recast p last' index rules rules') : SameSelectors rules rules' := by
  have aside {rest rest' : List Rule} (same : List.Forall₂ (Rule.Aside p last') rest rest') :
      SameSelectors rest rest' := by
    induction same with
    | nil => rfl
    | cons first rest ih => exact congrArg₂ List.cons first.selector.symm ih
  induction recast with
  | here own behind => exact congrArg₂ List.cons own.selector.symm (aside behind)
  | past first more ih => exact congrArg₂ List.cons first.selector.symm ih

/-- The rule of a number is recast if it is the one that declares `p`, and else it is aside. -/
theorem Recast.at {rule' : Rule} (recast : Recast p last' index rules rules') (there : rules[place]? = some rule)
    (there' : rules'[place]? = some rule') :
    (place = index ∧ Rule.Recast p last' rule rule') ∨ (place ≠ index ∧ Rule.Aside p last' rule rule') := by
  have aside {rest rest' : List Rule} (same : List.Forall₂ (Rule.Aside p last') rest rest') {place : Nat}
      (there : rest[place]? = some rule) (there' : rest'[place]? = some rule') : Rule.Aside p last' rule rule' := by
    obtain ⟨inside, rfl⟩ := List.getElem?_eq_some_iff.mp there
    obtain ⟨inside', rfl⟩ := List.getElem?_eq_some_iff.mp there'
    exact same.get inside inside'
  induction recast generalizing place with
  | here own behind =>
    cases place with
    | zero =>
      cases there
      cases there'
      exact .inl ⟨rfl, own⟩
    | succ place => exact .inr ⟨Nat.succ_ne_zero _, aside behind there there'⟩
  | past first more ih =>
    cases place with
    | zero =>
      cases there
      cases there'
      exact .inr ⟨(Nat.succ_ne_zero _).symm, first⟩
    | succ place =>
      rcases ih there there' with ⟨rfl, own⟩ | ⟨other, same⟩
      · exact .inl ⟨rfl, own⟩
      · exact .inr ⟨fun same => other (Nat.succ.inj same), same⟩

/-! ### The declarations of items -/

theorem placeDeclaration_moved (last last' offset : Nat) (d : DeclarationItem) :
    placeDeclaration (last' + offset) d = (placeDeclaration (last + offset) d).moved last last' := by
  simp only [placeDeclaration, Placed.moved, Placed.mk.injEq, true_and]
  omega

/-- The declarations of items behind `p`. -/
theorem placedFrom_aside (last' offset : Nat) (items : List Item) :
    List.Forall₂ (Placed.Aside p last') (placedFrom (p.stop + offset) items) (placedFrom (last' + offset) items) := by
  induction items generalizing offset with
  | nil => exact .nil
  | cons item rest ih =>
    have later := ih (offset + item.text.length)
    rw [← Nat.add_assoc, ← Nat.add_assoc] at later
    cases item with
    | declaration d =>
      refine .cons ?_ later
      rw [placeDeclaration_moved p.stop last' offset]
      exact .behind (Nat.le_add_right p.stop offset)
    | gap text => exact later
    | statement text => exact later
    | block kind head gap inner => exact later

mutual

/-- The rules of an item behind `p`. -/
theorem rulesOf_aside (last' offset : Nat) (container container' : Option AtRule) (item : Item) :
    List.Forall₂ (Rule.Aside p last') (rulesOf container (p.stop + offset) item)
      (rulesOf container' (last' + offset) item) := by
  cases item with
  | block kind head gap inner =>
    rw [rulesOf, rulesOf]
    refine List.rel_append ?_ ?_
    · split
      · refine .cons ⟨rfl, ?_⟩ .nil
        simp only [placeRule, Nat.add_assoc]
        exact placedFrom_aside _ _ inner
      · exact .nil
    · simp only [Nat.add_assoc]
      exact rulesFrom_aside _ _ _ _ inner
  | _ => exact .nil
termination_by structural item

/-- The rules of items behind `p`. -/
theorem rulesFrom_aside (last' offset : Nat) (container container' : Option AtRule) (items : List Item) :
    List.Forall₂ (Rule.Aside p last') (rulesFrom container (p.stop + offset) items)
      (rulesFrom container' (last' + offset) items) := by
  cases items with
  | nil => exact .nil
  | cons item rest =>
    rw [rulesFrom, rulesFrom]
    refine List.rel_append (rulesOf_aside _ _ _ _ item) ?_
    rw [Nat.add_assoc, Nat.add_assoc]
    exact rulesFrom_aside _ _ _ _ rest
termination_by structural items

end

mutual

theorem stop_of_rulesOf {container : Option AtRule} {offset : Nat} (item : Item)
    (member : rule ∈ rulesOf container offset item) (declared : q ∈ rule.declarations) :
    q.stop ≤ offset + item.text.length := by
  cases item with
  | block kind head gap inner =>
    rw [rulesOf, List.mem_append] at member
    simp only [Item.text, List.length_append, List.length_cons]
    rcases member with own | nested
    · split at own
      · obtain rfl := List.mem_singleton.mp own
        have ends : q.stop ≤ offset + head.length + gap.length + 1 + (textOf inner).length :=
          (lies_of_placedFrom declared).ends
        omega
      · cases own
    · have := stop_of_rulesFrom inner nested declared
      omega
  | _ => cases member
termination_by structural item

theorem stop_of_rulesFrom {container : Option AtRule} {offset : Nat} (items : List Item)
    (member : rule ∈ rulesFrom container offset items) (declared : q ∈ rule.declarations) :
    q.stop ≤ offset + (textOf items).length := by
  cases items with
  | nil => cases member
  | cons item rest =>
    rw [rulesFrom, List.mem_append] at member
    rw [textOf, List.length_append]
    rcases member with first | later
    · have := stop_of_rulesOf item first declared
      omega
    · have := stop_of_rulesFrom rest later declared
      omega
termination_by structural items

end

/-- The declarations of items in front of `p`. -/
theorem placedFrom_front (last' : Nat) (before : offset + (textOf items).length ≤ p.start) :
    List.Forall₂ (Placed.Aside p last') (placedFrom offset items) (placedFrom offset items) :=
  List.forall₂_same.mpr fun _ member => .front (Nat.le_trans (lies_of_placedFrom member).ends before)

/-- Rules in front of `p`. -/
theorem rules_front (last' : Nat) (before : ∀ rule ∈ rules, ∀ q ∈ rule.declarations, q.stop ≤ p.start) :
    List.Forall₂ (Rule.Aside p last') rules rules :=
  List.forall₂_same.mpr fun rule member =>
    ⟨rfl, List.forall₂_same.mpr fun q declared => .front (before rule member q declared)⟩

theorem placedFrom_append (offset : Nat) (items more : List Item) :
    placedFrom offset (items ++ more) = placedFrom offset items ++ placedFrom (offset + (textOf items).length) more := by
  induction items generalizing offset with
  | nil => rfl
  | cons item rest ih =>
    rw [textOf, List.length_append, ← Nat.add_assoc]
    cases item with
    | declaration d => exact congrArg _ (ih _)
    | gap text => exact ih _
    | statement text => exact ih _
    | block kind head gap inner => exact ih _

theorem rulesFrom_append (container : Option AtRule) (offset : Nat) (items more : List Item) :
    rulesFrom container offset (items ++ more) =
      rulesFrom container offset items ++ rulesFrom container (offset + (textOf items).length) more := by
  induction items generalizing offset with
  | nil => rfl
  | cons item rest ih =>
    rw [List.cons_append, rulesFrom, rulesFrom, ih, textOf, List.length_append, List.append_assoc, Nat.add_assoc]

/-! ### Items of which one declaration is changed -/

theorem placedFrom_gap (offset : Nat) (gap : List Char) (items : List Item) :
    placedFrom offset (gapItems gap ++ items) = placedFrom (offset + gap.length) items := by
  cases gap <;> rfl

theorem rulesFrom_gap (container : Option AtRule) (offset : Nat) (gap : List Char) (items : List Item) :
    rulesFrom container offset (gapItems gap ++ items) = rulesFrom container (offset + gap.length) items := by
  cases gap <;> rfl

theorem textOf_gapItems (gap : List Char) : textOf (gapItems gap) = gap := by
  cases gap with
  | nil => rfl
  | cons c gap => simp [gapItems, textOf, Item.text]

/-- How long items are of which a part is exchanged. -/
theorem Refilled.sizes {inner inner' : List Item} (refilled : Refilled inner inner' place count items items') :
    ∃ size, (textOf items).length = place + (textOf inner).length + size ∧
      (textOf items').length = place + (textOf inner').length + size := by
  induction refilled with
  | @rule head gap rest =>
    refine ⟨1 + (textOf rest).length, ?_, ?_⟩ <;>
    · simp only [textOf, Item.text, List.length_append, List.length_cons, List.length_nil]
      omega
  | @into kind head gap within within' rest place count more ih =>
    obtain ⟨size, whole, whole'⟩ := ih
    refine ⟨size + 1 + (textOf rest).length, ?_, ?_⟩ <;>
    · simp only [textOf, Item.text, List.length_append, List.length_cons, List.length_nil, whole, whole']
      omega
  | @past item items items' place count more ih =>
    obtain ⟨size, whole, whole'⟩ := ih
    refine ⟨size, ?_, ?_⟩ <;>
    · simp only [textOf, List.length_append, whole, whole']
      omega

/-- The rule whose items are exchanged. -/
theorem Refilled.begins {inner inner' : List Item} (refilled : Refilled inner inner' place count items items')
    (container : Option AtRule) (offset : Nat) : ∃ rule, (rulesFrom container offset items)[count]? = some rule ∧
      rule.innerStart = offset + place := by
  induction refilled generalizing container offset with
  | @rule head gap rest =>
    refine ⟨placeRule container offset head gap inner, ?_, ?_⟩
    · rw [rulesFrom, rulesOf, if_pos rfl]
      rfl
    · simp [placeRule, Nat.add_assoc]
  | @into kind head gap within within' rest place count more ih =>
    obtain ⟨rule, there, begins⟩ := ih (kind.container? head gap offset) (offset + head.length + gap.length + 1)
    refine ⟨rule, ?_, by omega⟩
    rw [rulesFrom, rulesOf, ← length_own kind (placeRule container offset head gap within)]
    exact getElem?_middle there
  | @past item items items' place count more ih =>
    obtain ⟨rule, there, begins⟩ := ih container (offset + item.text.length)
    refine ⟨rule, ?_, by omega⟩
    have later := @getElem?_middle _ (rulesOf container offset item) _ [] _ _ there
    rwa [length_rulesOf, List.append_nil] at later

section Exchange

/-- Another declaration of the property in the place of `p`, and another gap behind it. -/
structure Exchange (p : Placed) (last' : Nat) (d d' : DeclarationItem) (gap gap' : List Char) : Prop where
  named : d'.name = d.name
  begins : p = placeDeclaration p.start d
  size : last' + gap.length = p.start + d'.text.length + gap'.length

variable (exchange : Exchange p last' d d' gap gap') {start : Nat} (here : p.start = start + (textOf early).length)

include exchange here

/-- What a rule declares when one of its declarations is exchanged. -/
theorem Exchange.row (more : List Item) : placedFrom start (early ++ .declaration d :: (gapItems gap ++ more)) =
      placedFrom start early ++ p :: placedFrom (p.stop + gap.length) more ∧
    placedFrom start (early ++ .declaration d' :: (gapItems gap' ++ more)) =
      placedFrom start early ++ placeDeclaration p.start d' :: placedFrom (last' + gap.length) more := by
  obtain ⟨named, begins, size⟩ := exchange
  have stop : p.stop = p.start + d.text.length := congrArg Placed.stop begins
  rw [placedFrom_append, placedFrom_append, placedFrom, placedFrom, placedFrom_gap, placedFrom_gap, ← here, ← begins,
    size, stop]
  exact ⟨rfl, rfl⟩

/-- The rules in a rule of which one declaration is exchanged. -/
theorem Exchange.nested (container : Option AtRule) :
    List.Forall₂ (Rule.Aside p last')
      (rulesFrom container start (early ++ .declaration d :: (gapItems gap ++ more)))
      (rulesFrom container start (early ++ .declaration d' :: (gapItems gap' ++ more))) := by
  obtain ⟨named, begins, size⟩ := exchange
  have stop : p.stop = p.start + d.text.length := congrArg Placed.stop begins
  have behind (d : DeclarationItem) (gap : List Char) (offset : Nat) :
      rulesFrom container offset (.declaration d :: (gapItems gap ++ more)) =
        rulesFrom container (offset + d.text.length + gap.length) more := by
    rw [rulesFrom, rulesOf, List.nil_append, rulesFrom_gap, Item.text]
  rw [rulesFrom_append, rulesFrom_append, behind, behind, ← here, ← size, ← stop]
  exact List.rel_append
    (rules_front _ fun _ member _ declared => (stop_of_rulesFrom early member declared).trans here.ge)
    (rulesFrom_aside _ _ _ _ more)

/-- Where a rule ends of which one declaration is exchanged. -/
theorem Exchange.ends (more : List Item) :
    start + (textOf (early ++ .declaration d :: (gapItems gap ++ more))).length =
        p.stop + (gap.length + (textOf more).length) ∧
      start + (textOf (early ++ .declaration d' :: (gapItems gap' ++ more))).length =
        last' + (gap.length + (textOf more).length) := by
  obtain ⟨named, begins, size⟩ := exchange
  have stop : p.stop = p.start + d.text.length := congrArg Placed.stop begins
  simp only [textOf_append, textOf, textOf_gapItems, Item.text, List.length_append]
  omega

end Exchange

/-- What stands behind a block whose inside comes to another end. -/
theorem aside_behind {head gap : List Char} {inner inner' : List Item} {first size : Nat}
    (ends : first + head.length + gap.length + 1 + (textOf inner).length = p.stop + size)
    (ends' : first + head.length + gap.length + 1 + (textOf inner').length = last' + size) (kind : BlockKind)
    (container : Option AtRule) (rest : List Item) :
    List.Forall₂ (Placed.Aside p last') (placedFrom first (.block kind head gap inner :: rest))
        (placedFrom first (.block kind head gap inner' :: rest)) ∧
      List.Forall₂ (Rule.Aside p last')
        (rulesFrom container (first + (Item.block kind head gap inner).text.length) rest)
        (rulesFrom container (first + (Item.block kind head gap inner').text.length) rest) := by
  have stop : first + (Item.block kind head gap inner).text.length = p.stop + (size + 1) := by
    simp only [Item.text, List.length_append, List.length_cons, List.length_nil]
    omega
  have stop' : first + (Item.block kind head gap inner').text.length = last' + (size + 1) := by
    simp only [Item.text, List.length_append, List.length_cons, List.length_nil]
    omega
  rw [placedFrom, placedFrom, stop, stop']
  · exact ⟨placedFrom_aside _ _ rest, rulesFrom_aside _ _ _ _ rest⟩
  · rintro _ ⟨⟩
  · rintro _ ⟨⟩

section Refilled

variable (exchange : Exchange p last' d d' gap gap')
  (refilled : Refilled (early ++ .declaration d :: (gapItems gap ++ more))
    (early ++ .declaration d' :: (gapItems gap' ++ more)) place count items items')
  (here : p.start = offset + place + (textOf early).length)

include exchange refilled here

/-- Where items end of which one declaration is exchanged. -/
theorem Refilled.ends : ∃ size, offset + (textOf items).length = p.stop + size ∧
    offset + (textOf items').length = last' + size := by
  obtain ⟨size, whole, whole'⟩ := refilled.sizes
  obtain ⟨ends, ends'⟩ := exchange.ends here more
  exact ⟨gap.length + (textOf more).length + size, by omega, by omega⟩

/-- The declarations that stand directly among items in which a declaration of a rule is exchanged. -/
theorem Refilled.row : List.Forall₂ (Placed.Aside p last') (placedFrom offset items) (placedFrom offset items') := by
  -- The induction is on the way to the rule; only what follows on its block, or one around it, is moved.
  induction refilled generalizing offset with
  | @rule head gap₀ rest =>
    have begins : p.start = offset + head.length + gap₀.length + 1 + (textOf early).length := by omega
    obtain ⟨ends, ends'⟩ := exchange.ends begins more
    exact (aside_behind ends ends' .rule none rest).1
  | @into kind head gap₀ within within' rest place count refilled ih =>
    have begins : p.start = offset + head.length + gap₀.length + 1 + place + (textOf early).length := by omega
    obtain ⟨size, ends, ends'⟩ := refilled.ends exchange begins
    exact (aside_behind ends ends' kind none rest).1
  | @past item items items' place count refilled ih =>
    have later := @ih (offset + item.text.length) (by omega)
    cases item with
    | declaration d₀ => exact .cons (.front (by simp only [placeDeclaration, Item.text] at here ⊢; omega)) later
    | gap text => exact later
    | statement text => exact later
    | block kind head gap inner => exact later

/-- The rules among items in which a declaration of a rule is exchanged. -/
theorem Refilled.recast (container : Option AtRule) :
    Recast p last' count (rulesFrom container offset items) (rulesFrom container offset items') := by
  induction refilled generalizing offset container with
  | @rule head gap₀ rest =>
    have begins : p.start = offset + head.length + gap₀.length + 1 + (textOf early).length := by omega
    obtain ⟨ends, ends'⟩ := exchange.ends begins more
    obtain ⟨row, row'⟩ := exchange.row begins more
    rw [rulesFrom, rulesFrom, rulesOf, rulesOf, if_pos rfl, if_pos rfl]
    have named : d'.name = p.property := exchange.named.trans (congrArg Placed.property exchange.begins).symm
    refine .append (.here ⟨rfl, _, _, _, _, _, row, row', named, ?_, placedFrom_aside _ _ more⟩ ?_)
      (aside_behind ends ends' .rule container rest).2
    · exact placedFrom_front _ begins.ge
    · exact exchange.nested begins _
  | @into kind head gap₀ within within' rest place count refilled ih =>
    -- A rule around it has the declarations of its own aside.
    have begins : p.start = offset + head.length + gap₀.length + 1 + place + (textOf early).length := by omega
    obtain ⟨size, ends, ends'⟩ := refilled.ends exchange begins
    rw [rulesFrom, rulesFrom, rulesOf, rulesOf, ← length_own kind (placeRule container offset head gap₀ within)]
    refine .append (.behind ?_ (ih begins _)) (aside_behind ends ends' kind container rest).2
    split
    · exact .cons ⟨rfl, refilled.row exchange begins⟩ .nil
    · exact .nil
  | @past item items items' place count refilled ih =>
    rw [rulesFrom, rulesFrom, ← length_rulesOf container offset item]
    refine .behind (rules_front _ fun _ member _ declared => ?_) (ih (by omega) container)
    have stop := stop_of_rulesOf item member declared
    omega

end Refilled

/-! ### Sheets -/

variable {sheet : Sheet} {property value : String} {level : Level} {cs stop : List Char} {late : List Item}

/-- Where the text of a declaration ends that is given another value. -/
def Placed.stopWith (p : Placed) (value : String) : Nat :=
  p.stop - p.valueStop + (p.valueStart + (p.renewed value).length)

/-- In front of a declaration that is read there is no gap. -/
theorem dropGap_of_declaration (reads : Reads level cs (.declaration d :: items) stop) : dropGap .outside cs = cs := by
  cases reads with
  | plain here => exact bare_of_cut here.1

/-- How long a declaration is with another value, and the blanks that the value leaves behind it. -/
theorem Stated.size_renewed {value' blanks : List Char} (stated : Stated sheet.source rule p early d late)
    (inside : p.stop ≤ sheet.source.length)
    (read : readDeclaration true (d.name ++ (d.gap ++ ':' :: (p.renewed value ++ sheet.source.drop p.valueStop))) =
      some ({ d with value := value' }, blanks ++ sheet.source.drop p.stop)) :
    p.start + ({ d with value := value' } : DeclarationItem).text.length + blanks.length = p.stopWith value := by
  obtain ⟨-, -, first_eq, -⟩ := stated.offsets
  have lies : p.valueStop ≤ p.stop := by
    rw [stated.placed]
    exact (lies_placeDeclaration p.start d).mark
  have sizes := congrArg List.length (readDeclaration_text _ _ _ _ read)
  simp only [List.length_append, List.length_cons, List.length_nil, List.length_drop] at sizes first_eq
  unfold Placed.stopWith
  omega

/-- A value that is put in its place gives another declaration, and another gap behind it, in front of the same
items. -/
theorem Stated.exchanges {rest : List Char} (stated : Stated sheet.source rule p early d late)
    (inside : p.stop ≤ sheet.source.length) (plain : Plain property value)
    (fits : Replaceable sheet p property value) (stops : Stops .block (sheet.source.drop rule.closing) rest) :
    ∃ d' gap gap' more, late = gapItems gap ++ more ∧ Exchange p (p.stopWith value) d d' gap gap' ∧
      Reads .block (sheet.source.drop p.start) (.declaration d :: (gapItems gap ++ more))
        (sheet.source.drop rule.closing) ∧
      Reads .block (d.name ++ (d.gap ++ ':' :: (p.renewed value ++ sheet.source.drop p.valueStop)))
        (.declaration d' :: (gapItems gap' ++ more)) (sheet.source.drop rule.closing) := by
  obtain ⟨value', blanks, read, -, blank⟩ := fits.put plain stated
  obtain ⟨gap, more, rfl, past⟩ := stated.late.past_gap stops
  obtain ⟨gap', past'⟩ := Reads.behind_gap ((dropGap_blanks .outside blank (sheet.source.drop p.stop)).symm ▸ past)
  refine ⟨{ d with value := value' }, gap, gap', more, rfl, ⟨rfl, stated.placed, ?_⟩,
    .of_declaration stated.read stated.late, .of_declaration read past'⟩
  have sizes := congrArg List.length stated.late.text
  have sizes' := congrArg List.length past'.text
  have length := stated.size_renewed inside read
  simp only [textOf_append, textOf_gapItems, List.length_append] at sizes sizes'
  omega

/-- A property that is declared is set at its declaration. -/
theorem Settable.replaces (settable : Settable sheet rule index property value)
    (found : rule.declaration? property = some p) : ∃ place, GapTo sheet.source place p.start ∧
      Replaceable sheet p property value ∧ Undisturbed sheet (sheet.replaceValue p value) rule index place := by
  obtain ⟨place, layout, undisturbed⟩ := settable
  rw [set, found] at undisturbed
  have declares : rule.declarations ≠ [] := List.ne_nil_of_mem (declaration?_member found)
  cases layout with
  | replaces found' gap fits =>
    obtain rfl := Option.some.inj (found.symm.trans found')
    exact ⟨place, gap, fits, undisturbed⟩
  | behind new | closes new => exact absurd (found.symm.trans new) (by rintro ⟨⟩)
  | fills none | follows none => exact absurd none declares

/-- Where a value is put in the place of another one as it should be, the other declarations are moved only. -/
theorem recast_of_settable (sound : sheet.hasError = false) (there : sheet.rules[index]? = some rule)
    (plain : Plain property value) (found : rule.declaration? property = some p)
    (settable : Settable sheet rule index property value) : (sheet.replaceValue p value).hasError = false ∧
      Recast p (p.stopWith value) index sheet.rules (sheet.replaceValue p value).rules := by
  have member := List.mem_of_getElem? there
  have embraced := embraced_of_sound sound member
  have spliced := set_spliced embraced property value
  rw [set, found] at spliced
  obtain ⟨_, _, split, -⟩ := declaration?_split found
  obtain ⟨early, d, late, stated, -, size⟩ := stated_of_sound sound member split
  obtain ⟨stop_eq, -, solid⟩ := stated.ends
  obtain ⟨place, gapTo, fits, upTo, front, reads, reads'⟩ := settable.replaces found
  obtain ⟨gap, gap_eq, start_eq, within, passes⟩ := gapTo.split (by omega) solid
  obtain ⟨_, stops⟩ := closes_of_sound sound member
  obtain ⟨d', lead, lead', more, rfl, exchange, old, new⟩ := stated.exchanges size.le plain fits stops
  -- The items in front of the declaration are the same, and those behind it, but for the gap that they begin with.
  rw [gap_eq] at reads
  rw [stated.replaced value gap_eq start_eq within] at reads'
  have inner := reads.append (old.behind ((passes _).trans (dropGap_of_declaration old)))
  have inner' := reads'.append (new.behind ((passes _).trans (dropGap_of_declaration new)))
  rw [← List.append_assoc] at inner inner'
  obtain ⟨place', items, items', parsed, parsed', refilled⟩ := spliced.refills sound there upTo inner inner'
  refine ⟨(hasError_eq_false _).mpr ⟨items', parsed', textOf_parse _ _ parsed'⟩, ?_⟩
  -- The rule that is refilled is the one of the number, so that its items begin where it says.
  obtain ⟨_, there', begins⟩ := refilled.begins none 0
  rw [← rules_of_parse parsed, there] at there'
  obtain rfl := Option.some.inj there'
  rw [rules_of_parse parsed, rules_of_parse parsed']
  refine refilled.recast exchange ?_ none
  have sizes := congrArg List.length reads.text
  have order := (embraced.declared p (declaration?_member found)).begins
  simp only [textOf_append, textOf_gapItems, List.length_append, List.length_drop] at sizes ⊢
  omega

end Retouch.Sheet
