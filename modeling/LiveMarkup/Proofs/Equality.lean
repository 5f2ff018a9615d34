import LiveMarkup.Proofs.WrittenForms
import Mathlib

/-!
# Loose equality

Loose equality takes its two sides as primitives before it compares them, and which of its rules
applies depends on the kinds of both. At most one side has to be spelled out for that, so the order
of the sides makes no difference, not even to what is looked at. Within one kind nothing is
converted but booleans, and their numbers tell them apart.
-/

namespace LiveMarkup

open Relation Heap

variable {h : Heap} {a b v : Value} {slots : Array Slot}

lemma Number.beq_comm (x y : Float) : (x == y) = (y == x) := by
  rw [Bool.eq_iff_iff]
  show x.toModel.unpack.beq y.toModel.unpack = true ↔ y.toModel.unpack.beq x.toModel.unpack = true
  rw [Float.Model.UnpackedFloat.beq_iff_ne_notANumber_and_eq,
    Float.Model.UnpackedFloat.beq_iff_ne_notANumber_and_eq]
  tauto

namespace Value

lemma strictEq_comm (a b : Value) : a.strictEq b = b.strictEq a := by
  cases a <;> cases b <;> first | rfl | exact Number.beq_comm _ _ | exact BEq.comm

lemma ofBit_beq_ofBit (a b : Bool) : (ofBit a == ofBit b) = (a == b) := by
  revert a b
  decide +kernel

end Value

namespace Heap

lemma primitiveEq_comm (p q : Value) : primitiveEq p q = primitiveEq q p := by
  cases p <;> cases q <;> first | rfl | exact Number.beq_comm _ _ | exact BEq.comm

lemma exists_toPrimitive (hv : v.isPrimitive = true) : ∃ p, h.toPrimitive v = pure p := by
  cases v
  case list | object | function | host => cases hv
  all_goals exact ⟨_, rfl⟩

/-- A side that is primitive already can be taken first or last. -/
lemma toPrimitive_swap (hv : a.isPrimitive = true ∨ b.isPrimitive = true) :
    (do return primitiveEq (← h.toPrimitive a) (← h.toPrimitive b) : Reading Bool) =
      (do return primitiveEq (← h.toPrimitive b) (← h.toPrimitive a)) := by
  obtain ha | hb := hv
  · obtain ⟨p, hp⟩ := exists_toPrimitive (h := h) ha
    simp only [hp, pure_bind, primitiveEq_comm p]
  · obtain ⟨q, hq⟩ := exists_toPrimitive (h := h) hb
    simp only [hq, pure_bind, primitiveEq_comm q]

lemma looseEq_comm (h : Heap) (a b : Value) : h.looseEq a b = h.looseEq b a := by
  unfold looseEq
  rw [Bool.or_comm, Bool.and_comm a.isNullish, Bool.and_comm (!a.isPrimitive), a.strictEq_comm]
  split_ifs with _ hidentities
  · rfl
  · rfl
  · apply toPrimitive_swap
    by_contra hnone
    simp_all

lemma looseEq_of_kind (hsort : a.isPrimitive = b.isPrimitive)
    (hkind : a.isPrimitive = true → a.typeName = b.typeName) :
    h.looseEq a b = pure (a.strictEq b) := by
  cases a <;> cases b
  case bool.bool x y => exact congrArg (pure : Bool → Reading Bool) (Value.ofBit_beq_ofBit x y)
  all_goals first | rfl | exact absurd (hkind rfl) (by simp [Value.typeName]) | cases hsort

lemma kind_of_strictEq (heq : a.strictEq b = true) :
    a.isPrimitive = b.isPrimitive ∧ a.typeName = b.typeName := by
  cases a <;> cases b <;> first | exact ⟨rfl, rfl⟩ | cases heq

/-- Where the text of every host object is given, every text is: only bags can come back to
themselves. -/
lemma isSome_display_of_hosts (hhosts : ∀ i slots, (h.display (.host i) slots).isSome = true)
    (v : Value) (slots : Array Slot) : (h.display v slots).isSome = true := by
  rw [isSome_display_iff, comesBack_textCalls_iff]
  rintro ⟨i, -, hback⟩
  have hhost := hhosts i slots
  rw [isSome_display_iff, comesBack_textCalls_iff] at hhost
  exact hhost ⟨i, .refl, hback⟩

lemma exists_gives_toPrimitive (hhosts : ∀ i slots, (h.display (.host i) slots).isSome = true)
    (v : Value) : ∃ p, Reading.Gives (h.toPrimitive v) p := by
  obtain ⟨⟨s, hs⟩, -⟩ | ⟨hend, -⟩ := follows_displayWithin h h.nesting [] v
  · cases v
    case list | object | function | host => exact ⟨_, hs.bind (.pure _)⟩
    all_goals exact ⟨_, .pure _⟩
  · have hgiven := isSome_display_of_hosts hhosts v #[]
    rw [display, hend] at hgiven
    cases hgiven

/-- Loose equality does not depend on the order of its sides, extends strict equality, and is
strict equality within a kind of primitives and among values with identities. It returns wherever
host objects have a text. -/
theorem looseEq_extends_strictEq (h : Heap) (a b : Value) :
    h.looseEq a b = h.looseEq b a ∧
      (a.strictEq b = true → h.looseEq a b = pure true) ∧
      (a.isPrimitive = b.isPrimitive → (a.isPrimitive = true → a.typeName = b.typeName) →
        h.looseEq a b = pure (a.strictEq b)) ∧
      ((∀ i slots, (h.display (.host i) slots).isSome = true) →
        ∀ slots, (h.looseEq a b slots).isSome = true) := by
  refine ⟨looseEq_comm h a b, fun heq => ?_, looseEq_of_kind, fun hhosts slots => ?_⟩
  · obtain ⟨hsort, hkind⟩ := kind_of_strictEq heq
    rw [looseEq_of_kind hsort fun _ => hkind, heq]
  · unfold looseEq
    split_ifs
    · rfl
    · rfl
    · obtain ⟨p, hp⟩ := exists_gives_toPrimitive hhosts a
      obtain ⟨q, hq⟩ := exists_gives_toPrimitive hhosts b
      exact (hp.bind (hq.bind (.pure (primitiveEq p q)))).isSome slots

theorem looseEq_extends_strictEq_words :
    let words : Heap := { lists := #[[.text "a", .null]] }
    (∀ slots, (words.looseEq (.list ⟨0⟩) (.text "a,") slots).isSome = true) ∧
      (words.looseEq (.text "a,") (.list ⟨0⟩) #[]).map Prod.fst = some true ∧
      (words.looseEq (.list ⟨0⟩) (.text "a,") #[]).map Prod.fst = some true := by
  intro words
  obtain ⟨hcomm, -, -, hreturns⟩ := looseEq_extends_strictEq words (.list ⟨0⟩) (.text "a,")
  refine ⟨hreturns fun i slots => ?_, hcomm ▸ ?_, ?_⟩
  · rfl
  · rfl
  · rfl

end Heap

end LiveMarkup
