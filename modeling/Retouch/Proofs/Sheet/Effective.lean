import Retouch.Proofs.Sheet.Entries
import Retouch.Table

/-!
# Which declaration counts

A rule can declare a property more than once. A search takes the first declaration of the property, in whatever
case its name is written; the listing of a rule keeps, for each way of writing a name, the last declaration that
is written so.

## Main statements

* `get?_styles`: the listing of a rule gives the value of the last declaration of a name.
* `Rule.readers_agree_iff`: when search and listing give the same values.
-/
namespace Retouch.Sheet

variable {α : Type} {rule : Rule} {name key : String}

/-! ### The listing -/

theorem putProperty_eq_put (key : String) (value : α) (found : List (String × α)) :
    putProperty key value found = Table.put found key value := by
  induction found with
  | nil => rfl
  | cons entry rest ih =>
    obtain ⟨other, a⟩ := entry
    simp only [putProperty, Table.put, beq_iff_eq, ih]

/-- Of the values that are listed one after the other, the last one of a key counts. -/
theorem get?_foldl_put (entries found : List (String × α)) (key : String) :
    Table.get? (entries.foldl (fun found entry => Table.put found entry.1 entry.2) found) key =
      ((entries.reverse.find? fun entry => entry.1 == key).map Prod.snd).or (Table.get? found key) := by
  induction entries generalizing found with
  | nil => rfl
  | cons entry rest ih =>
    rw [List.foldl_cons, ih, Table.get?_put, List.reverse_cons, List.find?_append]
    cases rest.reverse.find? fun entry => entry.1 == key with
    | some last => simp
    | none => by_cases same : entry.1 = key <;> simp [same]

theorem get?_map_snd {β : Type} (f : String → α → β) (found : List (String × α)) (key : String) :
    Table.get? (found.map fun entry => (entry.1, f entry.1 entry.2)) key = (Table.get? found key).map (f key) := by
  induction found with
  | nil => rfl
  | cons entry rest ih =>
    by_cases same : entry.1 = key
    · simp [Table.get?, same]
    · simpa [Table.get?, same] using ih

/-- The last declaration whose name is written in one way. -/
def Rule.lastSpelt? (rule : Rule) (name : String) : Option Placed :=
  rule.declarations.reverse.find? fun p => String.ofList p.property == name

/-- The listing of a rule gives the value of the last declaration of a name. -/
theorem get?_styles (rule : Rule) (name : String) : Table.get? rule.styles name =
    (rule.lastSpelt? name).map fun p => Style.Value.parse name p.valueText := by
  have listed : rule.values = (rule.declarations.map fun p => (String.ofList p.property, p.valueText)).foldl
      (fun found entry => Table.put found entry.1 entry.2) [] := by
    rw [Rule.values, List.foldl_map]
    simp only [putProperty_eq_put]
  have styled := get?_map_snd Style.Value.parse rule.values name
  rw [Rule.styles, styled, listed, get?_foldl_put, ← List.map_reverse, List.find?_map, Table.get?_nil, Option.or_none,
    Option.map_map, Option.map_map]
  rfl

/-! ### Search and listing -/

theorem sameProperty_self (name : List Char) : sameProperty name name = true := by simp [sameProperty]

/-- The search for a property takes the first of its declarations. -/
theorem declaration?_eq_first {first : Placed} {front rest : List Placed}
    (split : rule.declarations = front ++ first :: rest)
    (others : ∀ p ∈ front, sameProperty p.property name.toList = false)
    (named : sameProperty first.property name.toList = true) : rule.declaration? name = some first := by
  rw [Rule.declaration?, split, List.find?_append, List.find?_eq_none.mpr fun p member => by simp [others p member],
    Option.none_or]
  simp [named]

/-- The last declaration of a spelling is the one behind which none is spelt so. -/
theorem lastSpelt?_eq_last {last : Placed} {early behind : List Placed}
    (split : rule.declarations = early ++ last :: behind) (others : ∀ p ∈ behind, p.property ≠ last.property) :
    rule.lastSpelt? (String.ofList last.property) = some last := by
  have none : behind.reverse.find? (fun p => String.ofList p.property == String.ofList last.property) = none := by
    refine List.find?_eq_none.mpr fun p member => ?_
    simpa [String.ofList_inj] using others p (List.mem_reverse.mp member)
  rw [Rule.lastSpelt?, split, List.reverse_append, List.reverse_cons, List.append_assoc, List.find?_append, none]
  simp

/-- The search for a property and the listing of the rule agree on each property that the rule declares, and the
listing shows what the editors verify, just if of a property that is declared more than once the first declaration
and the last one of each spelling stand for the same value. -/
theorem Rule.readers_agree_iff (rule : Rule) :
    (∀ p ∈ rule.declarations, rule.style? (String.ofList p.property) =
        Table.get? rule.styles (String.ofList p.property) ∧
      ∀ prior current, checkPrior rule (String.ofList p.property) prior = .ok current →
        Table.get? rule.styles (String.ofList p.property) = some current) ↔
      ∀ front first middle last behind, rule.declarations = front ++ first :: middle ++ last :: behind →
        (∀ p ∈ front, sameProperty p.property last.property = false) →
        sameProperty first.property last.property = true → (∀ p ∈ behind, p.property ≠ last.property) →
          Style.Value.parse (String.ofList last.property) first.valueText =
            Style.Value.parse (String.ofList last.property) last.valueText := by
  constructor
  · intro agree front first middle last behind split others named unspelt
    have member : last ∈ rule.declarations := by simp [split]
    obtain ⟨same, -⟩ := agree last member
    have searched : rule.declarations = front ++ first :: (middle ++ last :: behind) := by simpa using split
    have found : rule.declaration? (String.ofList last.property) = some first :=
      declaration?_eq_first searched (by simpa using others) (by simpa using named)
    rw [Rule.style?, found, get?_styles, lastSpelt?_eq_last split unspelt] at same
    exact Option.some.inj same
  · intro alike p member
    have agree : rule.style? (String.ofList p.property) = Table.get? rule.styles (String.ofList p.property) := by
      rw [Rule.style?, get?_styles]
      -- The declaration itself is of its property and of its spelling, so both readers find one.
      obtain ⟨first, found⟩ : ∃ first, rule.declaration? (String.ofList p.property) = some first := by
        rw [← Option.isSome_iff_exists, Rule.declaration?, List.find?_isSome]
        exact ⟨p, member, by simp [sameProperty_self]⟩
      obtain ⟨last, spelt⟩ : ∃ last, rule.lastSpelt? (String.ofList p.property) = some last := by
        rw [← Option.isSome_iff_exists, Rule.lastSpelt?, List.find?_isSome]
        exact ⟨p, List.mem_reverse.mpr member, beq_self_eq_true _⟩
      rw [found, spelt]
      unfold Rule.declaration? at found
      unfold Rule.lastSpelt? at spelt
      obtain ⟨named, front, rest, split, others⟩ := List.find?_eq_some_iff_append.mp found
      obtain ⟨same, behind, early, split', unspelt⟩ := List.find?_eq_some_iff_append.mp spelt
      have same : last.property = p.property := by simpa [String.ofList_inj] using same
      have split' : rule.declarations = early.reverse ++ last :: behind.reverse := by
        rw [← List.reverse_reverse rule.declarations, split']
        simp
      -- The last declaration of the spelling is the first one of the property, or stands behind it.
      rcases List.append_eq_append_iff.mp (split.symm.trans split') with ⟨c, before, after⟩ | ⟨c, before, after⟩
      · rcases c with _ | ⟨c, middle⟩
        · obtain rfl := (List.cons.inj after).1
          rfl
        · obtain ⟨rfl, rfl⟩ := List.cons.inj after
          refine congrArg some (same ▸ alike front first middle last behind.reverse ?_ ?_ ?_ ?_)
          · simpa using split
          · simpa [same] using others
          · simpa [same] using named
          · simpa [String.ofList_inj, same] using unspelt
      · rcases c with _ | ⟨c, middle⟩
        · obtain rfl := (List.cons.inj after).1
          rfl
        · obtain ⟨rfl, -⟩ := List.cons.inj after
          have other := others last (by simp [before])
          simp [same, sameProperty_self] at other
    exact ⟨agree, fun prior current checked => agree ▸ (checkPrior_eq_ok.mp checked).1⟩

private def twiceText : String := ".a \x7b float: left; float: right; \x7d"

private def twiceRule : Rule := (Sheet.ofText twiceText).rules.get ⟨0, by decide +kernel⟩

/-- Of a property that is declared twice the search finds one value, and another one is listed. -/
theorem readers_differ_float : ∃ sheet : Sheet, sheet.hasError = false ∧ ∃ rule ∈ sheet.rules,
    rule.style? "float" = some (.keyword "left") ∧ Table.get? rule.styles "float" = some (.keyword "right") := by
  refine ⟨.ofText twiceText, by decide +kernel, twiceRule, List.get_mem _ _, ?_, ?_⟩
  · have first : (twiceRule.declaration? "float").map Placed.valueText = some "left" := by decide +kernel
    have style : twiceRule.style? "float" =
        ((twiceRule.declaration? "float").map Placed.valueText).map (Style.Value.parse "float") := by
      rw [Rule.style?, Option.map_map]
      rfl
    rw [style, first]
    rfl
  · have last : (twiceRule.lastSpelt? "float").map Placed.valueText = some "right" := by decide +kernel
    have style : Table.get? twiceRule.styles "float" =
        ((twiceRule.lastSpelt? "float").map Placed.valueText).map (Style.Value.parse "float") := by
      rw [get?_styles, Option.map_map]
      rfl
    rw [style, last]
    rfl

end Retouch.Sheet
