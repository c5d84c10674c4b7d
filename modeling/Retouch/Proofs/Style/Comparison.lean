import Retouch.Proofs.Style.Printed
import Retouch.Style.Compare
import Mathlib.Data.List.Forall2

/-!
# What comparing values tells

A value is its outline, which is all of it but its numbers, together with these numbers in their order. Two values are
compared by their outlines and by their numbers, one by one, so the laws of comparing values are those of comparing
numbers.

## Main statements

* `agrees_iff`: values agree just if their outlines are the same and their numbers agree in order.
* `numbersClose_turned`, `numbersClose_mono`: the laws of numbers within a tolerance.
* `comparison_laws`: sameness is an equivalence, and closeness a tolerance that contains it.
-/
namespace Retouch.Style

open Retouch.Number

/-! ### Values by their outlines and numbers -/

namespace Color

/-- The color with all its numbers set to zero. -/
def outline (c : Color) : Color := ⟨c.space, ⟨0.0, 0.0, 0.0⟩, 0.0⟩

/-- The channels and the opacity. -/
def parts (c : Color) : List Float := c.channels.toList ++ [c.alpha]

theorem outline_eq_iff {c d : Color} : c.outline = d.outline ↔ c.space = d.space := by
  simp [outline]

end Color

namespace Value

mutual

/-- The value with all its numbers set to zero: its shape with its units, names, words and spaces of colors. -/
def outline : Value → Value
  | .unit _ u => .unit 0.0 u
  | .number _ => .number 0.0
  | .keyword word => .keyword word
  | .color c => .color c.outline
  | .var name none => .var name none
  | .var name (some fallback) => .var name (some fallback.outline)
  | .tuple values => .tuple (outlineAll values)
  | .unparsed text => .unparsed text
termination_by structural value => value

def outlineAll : List Value → List Value
  | [] => []
  | value :: rest => outline value :: outlineAll rest
termination_by structural values => values

end

mutual

theorem numbers_outline : (a : Value) → a.outline.numbers = a.numbers.map fun _ => 0.0
  | .unit _ _ | .number _ | .keyword _ | .color _ | .var _ none | .unparsed _ => rfl
  | .var _ (some fallback) => numbers_outline fallback
  | .tuple values => numbersOfAll_outlineAll values

theorem numbersOfAll_outlineAll : (values : List Value) →
    numbersOfAll (outlineAll values) = (numbersOfAll values).map fun _ => 0.0
  | [] => rfl
  | value :: rest => by
    rw [outlineAll, numbersOfAll, numbersOfAll, List.map_append, numbers_outline value, numbersOfAll_outlineAll rest]

end

mutual

theorem colors_outline : (a : Value) → a.outline.colors = a.colors.map Color.outline
  | .unit _ _ | .number _ | .keyword _ | .color _ | .var _ none | .unparsed _ => rfl
  | .var _ (some fallback) => colors_outline fallback
  | .tuple values => colorsOfAll_outlineAll values

theorem colorsOfAll_outlineAll : (values : List Value) →
    colorsOfAll (outlineAll values) = (colorsOfAll values).map Color.outline
  | [] => rfl
  | value :: rest => by
    rw [outlineAll, colorsOfAll, colorsOfAll, List.map_append, colors_outline value, colorsOfAll_outlineAll rest]

end

theorem length_outlineAll (values : List Value) : (outlineAll values).length = values.length := by
  induction values with
  | nil => rfl
  | cons value rest ih => rw [outlineAll, List.length_cons, List.length_cons, ih]

end Value

/-- Setting the numbers to zero leaves a value of the same shape. -/
theorem Value.shape_outline (a : Value) : a.outline.shape = a.shape := by
  cases a with
  | var name fallback => cases fallback <;> rfl
  | _ => rfl

theorem Value.outline_ne_of_shape {a b : Value} (other : a.shape ≠ b.shape) : a.outline ≠ b.outline :=
  fun same => other (by rw [← shape_outline a, same, shape_outline b])

/-- Lists related item by item, cut at the same place, are related on either side of it. -/
theorem forall₂_append_iff {α β : Type} {r : α → β → Prop} {as bs : List α} {cs ds : List β}
    (same : as.length = cs.length) :
    List.Forall₂ r (as ++ bs) (cs ++ ds) ↔ List.Forall₂ r as cs ∧ List.Forall₂ r bs ds := by
  constructor
  · intro all
    have front := List.forall₂_take as.length all
    have back := List.forall₂_drop as.length all
    rw [List.take_left, same, List.take_left] at front
    rw [List.drop_left, same, List.drop_left] at back
    exact ⟨front, back⟩
  · exact fun ⟨front, back⟩ => List.rel_append front back

/-- Items related one by one are related through those in between. -/
theorem forall₂_trans {α : Type} {r : α → α → Prop} (trans : ∀ a b c, r a b → r b c → r a c) {as bs cs : List α}
    (first : List.Forall₂ r as bs) (second : List.Forall₂ r bs cs) : List.Forall₂ r as cs := by
  induction first generalizing cs with
  | nil => exact second
  | cons here _ ih =>
    cases second with
    | cons here' later' => exact .cons (trans _ _ _ here here') (ih later')

theorem forall₂_turned {α : Type} {r s : α → α → Prop} {p : α → Prop}
    (turned : ∀ a b, p a → p b → r a b → s b a) {as bs : List α} (all : List.Forall₂ r as bs)
    (left : ∀ a ∈ as, p a) (right : ∀ b ∈ bs, p b) : List.Forall₂ s bs as := by
  induction all with
  | nil => exact .nil
  | cons here _ ih =>
    obtain ⟨first, left⟩ := List.forall_mem_cons.mp left
    obtain ⟨first', right⟩ := List.forall_mem_cons.mp right
    exact .cons (turned _ _ first first' here) (ih left right)

/-! ### When values agree -/

namespace Value

/-- The outlines are the same, and the numbers and those of the colors are related one by one. -/
structure Agree (number channel : Float → Float → Prop) (a b : Value) : Prop where
  outline : a.outline = b.outline
  numbers : List.Forall₂ number a.numbers b.numbers
  colors : List.Forall₂ (fun c d => List.Forall₂ channel c.parts d.parts) a.colors b.colors

/-- Two doubles are equal. -/
abbrev Equal (x y : Float) : Prop := (x == y) = true

variable {number number' channel channel' : Float → Float → Prop} {a b c : Value} {xs ys : List Value}

/-- Tuples agree item by item. -/
theorem agree_cons_iff : Agree number channel (.tuple (a :: xs)) (.tuple (b :: ys)) ↔
    Agree number channel a b ∧ Agree number channel (.tuple xs) (.tuple ys) := by
  have items : (Value.tuple (a :: xs)).outline = (Value.tuple (b :: ys)).outline ↔
      a.outline = b.outline ∧ (Value.tuple xs).outline = (Value.tuple ys).outline := by
    simp only [outline, outlineAll, tuple.injEq, List.cons.injEq]
  -- Values with the same outline have as many numbers and colors.
  have cut (same : a.outline = b.outline) :
      a.numbers.length = b.numbers.length ∧ a.colors.length = b.colors.length := by
    have numbers := congrArg (fun v => v.numbers.length) same
    have colors := congrArg (fun v => v.colors.length) same
    simpa only [numbers_outline, colors_outline, List.length_map] using And.intro numbers colors
  constructor
  · rintro ⟨same, numbers, colors⟩
    obtain ⟨here, later⟩ := items.mp same
    obtain ⟨number, numbers⟩ := (forall₂_append_iff (cut here).1).mp numbers
    obtain ⟨color, colors⟩ := (forall₂_append_iff (cut here).2).mp colors
    exact ⟨⟨here, number, color⟩, ⟨later, numbers, colors⟩⟩
  · rintro ⟨⟨here, number, color⟩, ⟨later, numbers, colors⟩⟩
    exact ⟨items.mpr ⟨here, later⟩, List.rel_append number numbers, List.rel_append color colors⟩

/-- The colors of a precision are compared without an error, and agree just if they are of one space and their numbers are
related. -/
def Compares (p : Precision) (channel : Float → Float → Prop) : Prop :=
  ∀ c d : Color, ∃ answer, c.agrees p d = .ok answer ∧
    (answer = true ↔ c.space = d.space ∧ List.Forall₂ channel c.parts d.parts)

/-- Values of different outlines do not agree. -/
theorem tells_false {p : Precision} (told : agrees p a b = .ok false) (other : a.outline ≠ b.outline) :
    ∃ answer, agrees p a b = .ok answer ∧ (answer = true ↔ Agree Equal channel a b) :=
  ⟨false, told, iff_of_false nofun fun agree => other agree.outline⟩

mutual

/-- Values are compared without an error, and agree just if their outlines are the same and their numbers agree. -/
theorem agrees_iff {p : Precision} (compares : Compares p channel) :
    (a b : Value) → ∃ answer, agrees p a b = .ok answer ∧ (answer = true ↔ Agree Equal channel a b)
  | .unit x u, b => by
    cases b with
    | unit y v =>
      refine ⟨_, rfl, ?_⟩
      rw [Bool.and_eq_true, beq_iff_eq (a := u)]
      constructor
      · rintro ⟨same, rfl⟩
        exact ⟨rfl, .cons same .nil, .nil⟩
      · rintro ⟨same, numbers, -⟩
        exact ⟨(List.forall₂_cons.mp numbers).1, (unit.inj same).2⟩
    | _ => exact tells_false rfl (outline_ne_of_shape nofun)
  | .number x, b => by
    cases b with
    | number y =>
      refine ⟨_, rfl, fun same => ⟨rfl, .cons same .nil, .nil⟩, ?_⟩
      exact fun agree => (List.forall₂_cons.mp agree.numbers).1
    | _ => exact tells_false rfl (outline_ne_of_shape nofun)
  | .keyword word, b => by
    cases b with
    | keyword other =>
      refine ⟨_, rfl, ?_⟩
      rw [beq_iff_eq]
      exact ⟨fun same => ⟨congrArg keyword same, .nil, .nil⟩, fun agree => keyword.inj agree.outline⟩
    | _ => exact tells_false rfl (outline_ne_of_shape nofun)
  | .unparsed text, b => by
    cases b with
    | unparsed other =>
      refine ⟨_, rfl, ?_⟩
      rw [beq_iff_eq]
      exact ⟨fun same => ⟨congrArg unparsed same, .nil, .nil⟩, fun agree => unparsed.inj agree.outline⟩
    | _ => exact tells_false rfl (outline_ne_of_shape nofun)
  | .color c, b => by
    cases b with
    | color d =>
      obtain ⟨answer, told, iff⟩ := compares c d
      refine ⟨answer, told, iff.trans ?_⟩
      rw [← Color.outline_eq_iff]
      constructor
      · rintro ⟨same, parts⟩
        exact ⟨congrArg color same, .nil, .cons parts .nil⟩
      · rintro ⟨same, -, colors⟩
        exact ⟨color.inj same, (List.forall₂_cons.mp colors).1⟩
    | _ => exact tells_false rfl (outline_ne_of_shape nofun)
  | .var name none, b => by
    cases b with
    | var other fallback =>
      cases fallback with
      | none =>
        refine ⟨_, rfl, ?_⟩
        rw [beq_iff_eq]
        exact ⟨fun same => ⟨by rw [same], .nil, .nil⟩, fun agree => (var.inj agree.outline).1⟩
      | some fallback => exact tells_false rfl (by simp [outline])
    | _ => exact tells_false rfl (outline_ne_of_shape nofun)
  | .var name (some a), b => by
    cases b with
    | var other fallback =>
      cases fallback with
      | none => exact tells_false rfl (by simp [outline])
      | some b =>
        obtain ⟨answer, told, iff⟩ := agrees_iff compares a b
        rw [agrees]
        split
        next same =>
          refine ⟨answer, told, iff.trans ?_⟩
          obtain rfl := beq_iff_eq.mp same
          constructor
          · rintro ⟨same, numbers, colors⟩
            exact ⟨by simp only [outline, same], numbers, colors⟩
          · rintro ⟨same, numbers, colors⟩
            exact ⟨by simpa only [outline, var.injEq, Option.some.injEq, true_and] using same, numbers, colors⟩
        next other =>
          exact ⟨false, rfl, iff_of_false nofun fun agree => other (beq_iff_eq.mpr (var.inj agree.outline).1)⟩
    | _ => exact tells_false rfl (outline_ne_of_shape nofun)
  | .tuple xs, b => by
    cases b with
    | tuple ys =>
      rw [agrees]
      split
      next same => exact agreeAll_iff compares xs ys same
      next other =>
        refine ⟨false, rfl, iff_of_false nofun fun agree => other ?_⟩
        rw [← length_outlineAll xs, tuple.inj agree.outline, length_outlineAll]
    | _ => exact tells_false rfl (outline_ne_of_shape nofun)

theorem agreeAll_iff {p : Precision} (compares : Compares p channel) : (xs ys : List Value) → xs.length = ys.length →
    ∃ answer, agreeAll p xs ys = .ok answer ∧ (answer = true ↔ Agree Equal channel (.tuple xs) (.tuple ys))
  | [], [], _ => ⟨true, rfl, iff_of_true rfl ⟨rfl, .nil, .nil⟩⟩
  | x :: xs, y :: ys, same => by
    obtain ⟨here, told, hereIff⟩ := agrees_iff compares x y
    obtain ⟨later, told', laterIff⟩ := agreeAll_iff compares xs ys (Nat.succ.inj same)
    rw [agree_cons_iff, ← hereIff, ← laterIff, agreeAll, told]
    cases here with
    | true => exact ⟨later, told', by simp⟩
    | false => exact ⟨false, rfl, by simp⟩

end

/-! ### Laws of agreement -/

/-- No number of the value, and none of its colors, is what is no number. -/
structure Known (a : Value) : Prop where
  numbers : ∀ x ∈ a.numbers, IsNumber x
  colors : ∀ c ∈ a.colors, ∀ x ∈ c.parts, IsNumber x

theorem Known.agree_self (known : Known a) (number_self : ∀ x, IsNumber x → number x x)
    (channel_self : ∀ x, IsNumber x → channel x x) : Agree number channel a a where
  outline := rfl
  numbers := List.forall₂_same.mpr fun x member => number_self x (known.numbers x member)
  colors := List.forall₂_same.mpr fun c member =>
    List.forall₂_same.mpr fun x inside => channel_self x (known.colors c member x inside)

namespace Agree

/-- What holds of known numbers turned around holds of values turned around. -/
theorem turned (agree : Agree number channel a b) (left : Known a) (right : Known b)
    (number_turned : ∀ x y, IsNumber x → IsNumber y → number x y → number' y x)
    (channel_turned : ∀ x y, IsNumber x → IsNumber y → channel x y → channel' y x) :
    Agree number' channel' b a where
  outline := agree.outline.symm
  numbers := forall₂_turned number_turned agree.numbers left.numbers right.numbers
  colors := by
    refine forall₂_turned (fun c d known known' parts => ?_) agree.colors left.colors right.colors
    exact forall₂_turned channel_turned parts known known'

theorem trans (first : Agree number channel a b) (second : Agree number channel b c)
    (number_trans : ∀ x y z, number x y → number y z → number x z)
    (channel_trans : ∀ x y z, channel x y → channel y z → channel x z) : Agree number channel a c where
  outline := first.outline.trans second.outline
  numbers := forall₂_trans number_trans first.numbers second.numbers
  colors := by
    refine forall₂_trans (fun _ _ _ parts parts' => ?_) first.colors second.colors
    exact forall₂_trans channel_trans parts parts'

theorem imp (agree : Agree number channel a b) (number_imp : ∀ x y, number x y → number' x y)
    (channel_imp : ∀ x y, channel x y → channel' x y) : Agree number' channel' a b where
  outline := agree.outline
  numbers := agree.numbers.imp number_imp
  colors := agree.colors.imp fun _ _ parts => parts.imp channel_imp

end Agree

end Value

/-! ### Numbers within a tolerance -/

section Close

variable {x y tolerance larger : Float} {r s : ℝ}

theorem numbersClose_of_beq (same : (x == y) = true) : numbersClose tolerance x y = true := by
  rw [numbersClose, same, Bool.true_or]

/-- Of numbers that are not equal one is below the other, and their distance is taken from there. -/
theorem numbersClose_turned (left : IsNumber x) (right : IsNumber y) (close : numbersClose tolerance x y = true) :
    numbersClose tolerance y x = true := by
  by_cases same : (x == y) = true
  · exact numbersClose_of_beq (beq_symm same)
  · have turned : distance y x = distance x y := by
      have apart : ¬(x ≤ y ∧ y ≤ x) := mt beq_iff_le.mpr same
      unfold distance
      rcases le_or_ge left right with most | most
      · rw [if_pos most, if_neg fun least => apart ⟨most, least⟩]
      · rw [if_pos most, if_neg fun least => apart ⟨least, most⟩]
    simp only [numbersClose, turned, Bool.or_eq_true, Bool.and_eq_true, decide_eq_true_eq] at close ⊢
    obtain ⟨⟨finite, finite'⟩, within⟩ := close.resolve_left same
    refine .inr ⟨⟨finite', finite⟩, ?_⟩
    rcases within with (share | share') | absolute
    · exact .inl (.inr share)
    · exact .inl (.inl share')
    · exact .inr absolute

theorem numbersClose_mono (grows : tolerance ≤ larger) (close : numbersClose tolerance x y = true) :
    numbersClose larger x y = true := by
  simp only [numbersClose, Bool.or_eq_true, Bool.and_eq_true, decide_eq_true_eq] at close ⊢
  exact close.imp_right fun told => ⟨told.1, told.2.imp_right fun within => le_of_le_of_le within grows⟩

/-- The distance of finite numbers is rounded once. -/
theorem computes_distance (left : Denotes x r) (right : Denotes y s) : Computes (distance x y) |r - s| := by
  unfold distance
  split
  next most =>
    rw [left.le_iff right] at most
    rw [abs_sub_comm, abs_of_nonneg (sub_nonneg.mpr most)]
    exact computes_sub right left
  next other =>
    rw [left.le_iff right, not_le] at other
    rw [abs_of_nonneg (sub_nonneg.mpr other.le)]
    exact computes_sub left right

/-- The numbers differ by the tolerance at most. -/
def Near (tolerance x y : Float) : Prop :=
  ∃ r s t, Denotes x r ∧ Denotes y s ∧ (reading tolerance).value? = some t ∧ (|r - s| : ℝ) ≤ t

/-- Rounding does not lead past the tolerance, which is a double itself. -/
theorem numbersClose_of_near (near : Near tolerance x y) : numbersClose tolerance x y = true := by
  obtain ⟨r, s, t, left, right, value, most⟩ := near
  have within : distance x y ≤ tolerance := (computes_distance left right).le_of_le value most
  have finite {z : Float} {v : ℝ} (denotes : Denotes z v) : z.isInf = false := by
    obtain ⟨b, read, -⟩ := denotes
    refine Bool.eq_false_iff.mpr fun infinite => ?_
    obtain ⟨negative, other⟩ := (isInf_iff z).mp infinite
    rw [read] at other
    cases other
  simp only [numbersClose, finite left, finite right, within, decide_true, Bool.or_true, Bool.not_false, Bool.and_true]

end Close

/-! ### The two precisions -/

namespace Value

theorem compares_exact : Compares .exact Equal := by
  intro c d
  have channels : (c.channels == d.channels) =
      (c.channels.first == d.channels.first && (c.channels.second == d.channels.second &&
        c.channels.third == d.channels.third)) := rfl
  rw [Color.agrees]
  split
  next other => exact ⟨false, rfl, iff_of_false nofun fun same => other same.1⟩
  next same =>
    refine ⟨_, rfl, ?_⟩
    rw [channels]
    simp only [Color.parts, Channels.toList, List.cons_append, List.nil_append, List.forall₂_cons, Bool.and_eq_true]
    constructor
    · rintro ⟨alpha, first, second, third⟩
      exact ⟨not_not.mp same, first, second, third, alpha, .nil⟩
    · rintro ⟨-, first, second, third, alpha, -⟩
      exact ⟨alpha, first, second, third⟩

theorem compares_within {tolerance : Float} (least : 0.0 ≤ tolerance) :
    Compares (.within tolerance) fun x y => numbersClose tolerance x y = true := by
  intro c d
  rw [Color.agrees]
  split
  next other => exact ⟨false, rfl, iff_of_false nofun fun same => other same.1⟩
  next same =>
    rw [if_neg (not_lt_of_le least)]
    refine ⟨_, rfl, ?_⟩
    simp only [Color.parts, Channels.toList, List.cons_append, List.nil_append, List.forall₂_cons, Bool.and_eq_true]
    constructor
    · rintro ⟨⟨⟨first, second⟩, third⟩, alpha⟩
      exact ⟨not_not.mp same, first, second, third, alpha, .nil⟩
    · rintro ⟨-, first, second, third, alpha, -⟩
      exact ⟨⟨⟨first, second⟩, third⟩, alpha⟩

/-- Two doubles stand for the same number, or for none. -/
def SameNumber (x y : Float) : Prop := (reading x).value? = (reading y).value?

theorem sameNumber_of_equal {x y : Float} (equal : Equal x y) : SameNumber x y := by
  obtain ⟨⟨v, left⟩, ⟨w, right⟩⟩ := (known_of_beq equal).imp exists_value?_iff.mpr exists_value?_iff.mpr
  rw [SameNumber, left, right, (beq_iff_value left right).mp equal]

theorem equal_of_sameNumber {x y : Float} (known : IsNumber x) (same : SameNumber x y) : Equal y x := by
  obtain ⟨v, value⟩ := exists_value?_iff.mpr known
  exact (beq_iff_value (same.symm.trans value) value).mpr rfl

/-! ### Sameness -/

theorem same_iff : same a b = true ↔ Agree Equal Equal a b := by
  obtain ⟨answer, told, iff⟩ := agrees_iff compares_exact a b
  rw [same, told, ← iff]

theorem same_self (known : Known a) : same a a = true :=
  same_iff.mpr (known.agree_self (fun _ => beq_self) fun _ => beq_self)

theorem same_turned (left : Known a) (right : Known b) (told : same a b = true) : same b a = true :=
  same_iff.mpr ((same_iff.mp told).turned left right (fun _ _ _ _ => beq_symm) fun _ _ _ _ => beq_symm)

theorem same_trans (first : same a b = true) (second : same b c = true) : same a c = true :=
  same_iff.mpr ((same_iff.mp first).trans (same_iff.mp second) (fun _ _ _ => beq_trans) fun _ _ _ => beq_trans)

/-- Values are the same just if they have the same outline and stand for the same numbers. -/
theorem same_iff_sameNumber (left : Known a) (right : Known b) :
    same a b = true ↔ Agree SameNumber SameNumber a b := by
  constructor
  · intro told
    exact (same_iff.mp told).imp (fun _ _ => sameNumber_of_equal) fun _ _ => sameNumber_of_equal
  · intro agree
    have turned (x y : Float) (known : IsNumber x) (_ : IsNumber y) (same : SameNumber x y) : Equal y x :=
      equal_of_sameNumber known same
    exact same_turned right left (same_iff.mpr (agree.turned left right turned turned))

/-! ### Closeness -/

section Tolerance

variable {tolerance larger : Float} (least : 0.0 ≤ tolerance)

include least

/-- With a tolerance that is not negative there is always an answer. -/
theorem close_eq_ok_iff (answer : Bool) : close a b tolerance = .ok answer ↔
    (answer = true ↔ Agree Equal (fun x y => numbersClose tolerance x y = true) a b) := by
  obtain ⟨found, told, iff⟩ := agrees_iff (compares_within least) a b
  rw [close, told, Except.ok.injEq, ← iff, ← Bool.eq_iff_iff, eq_comm]

theorem close_iff : close a b tolerance = .ok true ↔
    Agree Equal (fun x y => numbersClose tolerance x y = true) a b := by
  rw [close_eq_ok_iff least, eq_self, true_iff]

theorem close_self (known : Known a) : close a a tolerance = .ok true :=
  (close_iff least).mpr (known.agree_self (fun _ => beq_self) fun _ number => numbersClose_of_beq (beq_self number))

theorem close_comm (left : Known a) (right : Known b) : close a b tolerance = close b a tolerance := by
  obtain ⟨answer, told, iff⟩ := agrees_iff (compares_within least) a b
  refine told.trans ((close_eq_ok_iff least answer).mpr (iff.trans ?_)).symm
  constructor
  · exact fun agree => agree.turned left right (fun _ _ _ _ => beq_symm) fun _ _ => numbersClose_turned
  · exact fun agree => agree.turned right left (fun _ _ _ _ => beq_symm) fun _ _ => numbersClose_turned

theorem close_of_same (told : same a b = true) : close a b tolerance = .ok true :=
  (close_iff least).mpr ((same_iff.mp told).imp (fun _ _ equal => equal) fun _ _ => numbersClose_of_beq)

/-- Values are close that are the same but for numbers of colors, if these differ by the tolerance at most. -/
theorem close_of_near (left : Known a) (right : Known b) (agree : Agree SameNumber (Near tolerance) a b) :
    close a b tolerance = .ok true := by
  rw [close_comm least left right, close_iff least]
  refine agree.turned left right (fun _ _ known _ => equal_of_sameNumber known) fun x y known known' near => ?_
  exact numbersClose_turned known known' (numbersClose_of_near near)

theorem close_mono (grows : tolerance ≤ larger) (told : close a b tolerance = .ok true) :
    close a b larger = .ok true := by
  rw [close_iff least] at told
  rw [close_iff (le_of_le_of_le least grows)]
  exact told.imp (fun _ _ equal => equal) fun _ _ => numbersClose_mono grows

theorem apart_of_outline (other : a.outline ≠ b.outline) : same a b = false ∧ close a b tolerance = .ok false := by
  constructor
  · exact Bool.eq_false_iff.mpr fun told => other (same_iff.mp told).outline
  · exact (close_eq_ok_iff least false).mpr (iff_of_false nofun fun agree => other agree.outline)

end Tolerance

/-- Of values without NaN, those are the same that have the same outline and stand for the same numbers, and being the
same is an equivalence. With a tolerance that is not negative, being close is reflexive and symmetric; it holds of values
that are the same, also but for numbers of colors that differ by the tolerance at most, and it keeps to hold when the
tolerance grows. Values with different outlines are neither the same nor close. -/
theorem comparison_laws :
    (∀ a b, Known a → Known b → (same a b = true ↔ Agree SameNumber SameNumber a b)) ∧
    (∀ a, Known a → same a a = true) ∧
    (∀ a b, Known a → Known b → same a b = true → same b a = true) ∧
    (∀ a b c, same a b = true → same b c = true → same a c = true) ∧
    ∀ tolerance : Float, 0.0 ≤ tolerance →
      (∀ a, Known a → close a a tolerance = .ok true) ∧
      (∀ a b, Known a → Known b → close a b tolerance = close b a tolerance) ∧
      (∀ a b, same a b = true → close a b tolerance = .ok true) ∧
      (∀ a b, Known a → Known b → Agree SameNumber (Near tolerance) a b → close a b tolerance = .ok true) ∧
      (∀ a b larger, tolerance ≤ larger → close a b tolerance = .ok true → close a b larger = .ok true) ∧
      ∀ a b, a.outline ≠ b.outline → same a b = false ∧ close a b tolerance = .ok false := by
  refine ⟨fun _ _ => same_iff_sameNumber, fun _ => same_self, fun _ _ => same_turned, fun _ _ _ => same_trans, ?_⟩
  intro tolerance least
  refine ⟨fun _ => close_self least, fun _ _ => close_comm least, fun _ _ => close_of_same least, ?_, ?_, ?_⟩
  · exact fun _ _ => close_of_near least
  · exact fun _ _ _ => close_mono least
  · exact fun _ _ => apart_of_outline least

/-- A line around a box whose color is the fallback of a variable. -/
private def border (red : Float) : Value :=
  .tuple [.unit 1.0 .px, .keyword "solid", .var "--line" (some (.color ⟨.srgb, ⟨red, 0.0, 0.25⟩, 1.0⟩))]

private theorem known_border {red : Float} (known : IsNumber red) : Known (border red) := by
  have size : IsNumber 1.0 := by decide +kernel
  have green : IsNumber 0.0 := by decide +kernel
  have blue : IsNumber 0.25 := by decide +kernel
  constructor
  · simpa [border, numbers, numbersOfAll] using size
  · simpa [border, colors, colorsOfAll, Color.parts, Channels.toList] using ⟨known, green, blue, size⟩

/-- Such lines are the same when their colors differ by the sign of a zero, close when the colors nearly are, and neither
the same as nor close to a line without a color. -/
theorem comparison_laws_border :
    Known (border 0.0) ∧ Known (border (-0.0)) ∧ Known (border 0.005) ∧ (0.0 : Float) ≤ 0.01 ∧ (0.01 : Float) ≤ 0.02 ∧
      (same (border 0.0) (border (-0.0)) = true ∧ same (border (-0.0)) (border 0.0) = true ∧
        same (border 0.0) (border 0.0) = true) ∧
      (close (border 0.0) (border (-0.0)) 0.01 = .ok true ∧ close (border 0.0) (border 0.005) 0.01 = .ok true ∧
        close (border 0.0) (border 0.005) 0.01 = close (border 0.005) (border 0.0) 0.01 ∧
        close (border 0.0) (border 0.005) 0.02 = .ok true) ∧
      same (border 0.0) (.tuple [.unit 1.0 .px, .keyword "solid", .var "--line" none]) = false := by
  have known : Known (border 0.0) := known_border (by decide +kernel)
  have negative : Known (border (-0.0)) := known_border (by decide +kernel)
  have known' : Known (border 0.005) := known_border (by decide +kernel)
  have least : (0.0 : Float) ≤ 0.01 := by decide +kernel
  have grows : (0.01 : Float) ≤ 0.02 := by decide +kernel
  have near : close (border 0.0) (border 0.005) 0.01 = .ok true := by decide +kernel
  have zeros : same (border 0.0) (border (-0.0)) = true := by decide +kernel
  obtain ⟨-, -, turned, trans, tolerant⟩ := comparison_laws
  obtain ⟨-, comm, contains, -, mono, apart⟩ := tolerant 0.01 least
  have back := turned _ _ known negative zeros
  refine ⟨known, negative, known', least, grows, ⟨zeros, back, trans _ _ _ zeros back⟩, ?_, ?_⟩
  · exact ⟨contains _ _ zeros, near, comm _ _ known known', mono _ _ _ grows near⟩
  · exact (apart _ _ (by simp [border, outline, outlineAll])).1

end Value

end Retouch.Style
