import Retouch.Proofs.Style.Numeral

/-!
# Values with their numbers settled

Writing a value rounds its numbers, so that reading it again gives the value with other numbers: each is
the one that its fixed form denotes. Every fixed form of a finite number denotes one; what cannot be written
are numbers other than zero with a number of places that is beyond any use.

## Main statements

* `writeNumber_cases`: the fixed form of a finite number denotes a number.
* `write_cases`: when a value can be written, and how writing fails otherwise.
-/
namespace Retouch.Style

open Retouch.Text Retouch.Number

/-- The number that a text denotes from its beginning to its end. -/
def denoted? (text : String) : Option Float :=
  match takeNumber text.toList with
  | some (x, []) => some x
  | _ => none

/-- The number that the fixed form of a number denotes. -/
def settledNumber? (places : Nat) (x : Float) : Option Float :=
  match fixedText x places with
  | .ok text => denoted? text
  | .error _ => none

def IsFinite (x : Float) : Prop := ∃ b, reading x = .finite b

instance (x : Float) : Decidable (IsFinite x) :=
  match shown : reading x with
  | .finite b => .isTrue ⟨b, shown⟩
  | .nan => .isFalse fun ⟨_, other⟩ => by rw [shown] at other; cases other
  | .infinite _ => .isFalse fun ⟨_, other⟩ => by rw [shown] at other; cases other

namespace Value

mutual

/-- The numbers of a value, those of its colors aside. -/
def numbers : Value → List Float
  | .unit size _ => [size]
  | .number x => [x]
  | .keyword _ => []
  | .color _ => []
  | .var _ none => []
  | .var _ (some fallback) => numbers fallback
  | .tuple values => numbersOfAll values
  | .unparsed _ => []
termination_by structural value => value

def numbersOfAll : List Value → List Float
  | [] => []
  | value :: rest => numbers value ++ numbersOfAll rest
termination_by structural values => values

end

mutual

/-- No color stands anywhere in a value. -/
def colorless : Value → Bool
  | .unit _ _ => true
  | .number _ => true
  | .keyword _ => true
  | .color _ => false
  | .var _ none => true
  | .var _ (some fallback) => colorless fallback
  | .tuple values => allColorless values
  | .unparsed _ => true
termination_by structural value => value

def allColorless : List Value → Bool
  | [] => true
  | value :: rest => colorless value && allColorless rest
termination_by structural values => values

end

mutual

/-- The value with every number replaced by the one that its fixed form denotes, if each denotes one. -/
def settled? (places : Nat) : Value → Option Value
  | .unit size u => return .unit (← settledNumber? places size) u
  | .number x => return .number (← settledNumber? places x)
  | .keyword text => some (.keyword text)
  | .color c => some (.color c)
  | .var name none => some (.var name none)
  | .var name (some fallback) => return .var name (some (← settled? places fallback))
  | .tuple values => return .tuple (← allSettled? places values)
  | .unparsed text => some (.unparsed text)
termination_by structural value => value

def allSettled? (places : Nat) : List Value → Option (List Value)
  | [] => some []
  | value :: rest => return (← settled? places value) :: (← allSettled? places rest)
termination_by structural values => values

end

/-- Numbers other than zero cannot be written with that many places. -/
def Refused (places : Nat) (value : Value) : Prop :=
  placesLimit < places ∧ ∃ x ∈ value.numbers, IsNonzero x

/-- The choices that writing leaves alone but for the number of places. -/
def withPlaces (places : Nat) : WriteOptions := { places := places }

end Value

/-! ### Numbers -/

/-- A finite number is written as figures, and settled as what these stand for. -/
theorem writeNumber_cases {x : Float} (finite : IsFinite x) (places : Nat) :
    (∃ figures : Figures, writeNumber places x = .ok (String.ofList figures.chars) ∧
        settledNumber? places x = some figures.value) ∧ ¬(placesLimit < places ∧ IsNonzero x) ∨
      writeNumber places x = .error (.number (.ofPlaces places)) ∧ placesLimit < places ∧ IsNonzero x := by
  obtain ⟨b, finite⟩ := finite
  rcases fixedText_cases finite places with ⟨⟨text, written⟩, within⟩ | ⟨failed, beyond⟩
  · obtain ⟨figures, eq⟩ := fixedText_figures finite written
    refine .inl ⟨⟨figures, ?_, ?_⟩, within⟩
    · rw [← eq, String.ofList_toList, writeNumber, written]
      rfl
    · have read := takeNumber_figures figures .nil
      rw [List.append_nil, ← eq] at read
      simp only [settledNumber?, written, denoted?, read]
  · exact .inr ⟨by rw [writeNumber, failed]; rfl, beyond⟩

namespace Value

/-! ### When a value can be written -/

section Write

variable (places : Nat)

mutual

theorem write_cases : (value : Value) → value.colorless = true → (∀ x ∈ value.numbers, IsFinite x) →
    (∃ text, value.write (withPlaces places) = .ok text) ∧ ¬Refused places value ∨
      value.write (withPlaces places) = .error (.number (.ofPlaces places)) ∧ Refused places value
  | .unit size u, _, finite => by
    have only : Refused places (.unit size u) ↔ placesLimit < places ∧ IsNonzero size := by
      simp [Refused, numbers]
    rw [only, write]
    rcases writeNumber_cases (finite size (by simp [numbers])) places with
      ⟨⟨figures, written, _⟩, within⟩ | ⟨failed, beyond⟩
    · exact .inl ⟨⟨_, by rw [withPlaces, written]; rfl⟩, within⟩
    · exact .inr ⟨by rw [withPlaces, failed]; rfl, beyond⟩
  | .number x, _, finite => by
    have only : Refused places (.number x) ↔ placesLimit < places ∧ IsNonzero x := by
      simp [Refused, numbers]
    rw [only, write]
    rcases writeNumber_cases (finite x (by simp [numbers])) places with
      ⟨⟨figures, written, _⟩, within⟩ | ⟨failed, beyond⟩
    · exact .inl ⟨⟨_, written⟩, within⟩
    · exact .inr ⟨failed, beyond⟩
  | .keyword text, _, _ => .inl ⟨⟨text, rfl⟩, by simp [Refused, numbers]⟩
  | .unparsed text, _, _ => .inl ⟨⟨text, rfl⟩, by simp [Refused, numbers]⟩
  | .var name none, _, _ => .inl ⟨⟨_, rfl⟩, by simp [Refused, numbers]⟩
  | .var name (some fallback), colorless, finite => by
    have only : Refused places (.var name (some fallback)) ↔ Refused places fallback := Iff.rfl
    rw [only, write]
    rcases write_cases fallback colorless finite with ⟨⟨text, written⟩, within⟩ | ⟨failed, beyond⟩
    · exact .inl ⟨⟨_, by rw [written]; rfl⟩, within⟩
    · exact .inr ⟨by rw [failed]; rfl, beyond⟩
  | .tuple values, colorless, finite => by
    rw [write]
    rcases writeAll_cases values colorless finite with ⟨⟨texts, written⟩, within⟩ | ⟨failed, beyond⟩
    · exact .inl ⟨⟨joinBlanks texts, by rw [written]; rfl⟩, within⟩
    · exact .inr ⟨by rw [failed]; rfl, beyond⟩
termination_by structural value => value

theorem writeAll_cases : (values : List Value) → allColorless values = true →
    (∀ x ∈ numbersOfAll values, IsFinite x) →
    (∃ texts, writeAll (withPlaces places) values = .ok texts) ∧
        ¬(placesLimit < places ∧ ∃ x ∈ numbersOfAll values, IsNonzero x) ∨
      writeAll (withPlaces places) values = .error (.number (.ofPlaces places)) ∧
        placesLimit < places ∧ ∃ x ∈ numbersOfAll values, IsNonzero x
  | [], _, _ => .inl ⟨⟨[], rfl⟩, by simp [numbersOfAll]⟩
  | value :: rest, colorless, finite => by
    simp only [allColorless, Bool.and_eq_true] at colorless
    simp only [numbersOfAll, List.mem_append] at finite ⊢
    rw [writeAll]
    rcases write_cases value colorless.1 fun x member => finite x (.inl member) with
      ⟨⟨text, written⟩, within⟩ | ⟨failed, beyond, x, member, nonzero⟩
    · rcases writeAll_cases rest colorless.2 fun x member => finite x (.inr member) with
        ⟨⟨texts, others⟩, within'⟩ | ⟨failed, beyond, x, member, nonzero⟩
      · refine .inl ⟨⟨text :: texts, by rw [written, others]; rfl⟩, ?_⟩
        rintro ⟨beyond, x, member | member, nonzero⟩
        · exact within ⟨beyond, x, member, nonzero⟩
        · exact within' ⟨beyond, x, member, nonzero⟩
      · exact .inr ⟨by rw [written, failed]; rfl, beyond, x, .inr member, nonzero⟩
    · exact .inr ⟨by rw [failed]; rfl, beyond, x, .inl member, nonzero⟩
termination_by structural values => values

end

end Write

end Value

end Retouch.Style
