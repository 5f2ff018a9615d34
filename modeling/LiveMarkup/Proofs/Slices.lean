import Mathlib
import LiveMarkup.Proofs.Ranges
import LiveMarkup.Proofs.Splitting

/-!
# Slices of texts and lists

A slice goes from one position to another. A position is a number without its fraction, counted from
the end if it is negative, and brought to the nearer end if it lies outside. So the slice up to a
position and the slice from there on make up the whole, whatever number the position is.
-/

namespace LiveMarkup

open List Program

variable {S : Signature} {α : Type}

namespace Decimal

/-- The exact size of a number. Infinities count as `2 ^ 1024`. -/
def magnitude (x : Float) : ℚ :=
  (Binary.ofFloat x).mant * 2 ^ (Binary.ofFloat x).exp

lemma quotient_eq_floor (x : Float) :
    (Binary.ofFloat x).quotient.1 / (Binary.ofFloat x).quotient.2 = ⌊magnitude x⌋₊ := by
  rw [← Nat.floor_div_eq_div (K := ℚ), magnitude, Binary.quotient, Binary.scale]
  generalize Binary.ofFloat x = b
  obtain ⟨n, hn | hn⟩ := b.exp.eq_nat_or_neg
  · simp [hn, Int.not_lt.mpr n.cast_nonneg]
  · rcases n.eq_zero_or_pos with rfl | hpos
    · simp [hn]
    · simp [hn, hpos, div_eq_mul_inv]

end Decimal

namespace Eval

open Decimal

lemma clampIndex_eq_floor (x : Float) (len : Nat) : clampIndex x len =
    if x.isNaN then 0
    else if isNegative x ∧ 0 < ⌊magnitude x⌋₊ then len - ⌊magnitude x⌋₊
    else min ⌊magnitude x⌋₊ len := by
  rw [clampIndex, truncate]
  simp only [quotient_eq_floor]
  cases isNegative x <;> simp <;> grind

/-- Where a slice ends, which is the end of the sequence if nothing is said. -/
def stopOf (b : Option Float) (len : Nat) : Nat :=
  b.elim len (clampIndex · len)

def sliceArgs (a : Float) (b : Option Float) : List Value :=
  .number a :: b.toList.map .number

def between (xs : List α) (a : Float) (b : Option Float) : List α :=
  slice xs (clampIndex a xs.length) (stopOf b xs.length)

lemma between_eq_parts (xs : List α) (a : Float) (b : Option Float) :
    ∃ front back, xs = front ++ between xs a b ++ back ∧ front.length = clampIndex a xs.length ∧
      (between xs a b).length = stopOf b xs.length - clampIndex a xs.length := by
  have hstart := clampIndex_le a xs.length
  have hstop : stopOf b xs.length ≤ xs.length := by
    cases b with
    | none => exact le_rfl
    | some b => exact clampIndex_le b _
  rw [between]
  generalize clampIndex a xs.length = i, stopOf b xs.length = j at hstart hstop
  refine ⟨xs.take i, (xs.drop i).drop (j - i), ?_, ?_, ?_⟩
  · rw [append_assoc, slice, take_append_drop, take_append_drop]
  · simp [hstart]
  · simp [slice]
    omega

lemma between_append (xs : List α) (x : Float) :
    between xs 0 (some x) ++ between xs x none = xs := by
  have hle := clampIndex_le x xs.length
  have hzero : clampIndex 0 xs.length = 0 := by
    simp [clampIndex, show truncate 0 = 0 by decide +kernel]
  rw [between, between, stopOf, stopOf, hzero, slice, slice, drop_zero, Nat.sub_zero]
  show xs.take (clampIndex x xs.length) ++ (xs.drop _).take (xs.length - clampIndex x xs.length) = xs
  rw [← length_drop, take_length, take_append_drop]

variable {env : Environment S} {callee : Expr} {call : Caller S} {w : World S}

lemma run_slice_text (s : String) (a : Float) (b : Option Float) :
    (callMethod env (.text s) "slice" (sliceArgs a b) callee).run.run call w =
      some (.ok (.text (String.ofList (between s.toList a b))), w) := by
  cases b <;> rfl

lemma run_slice_list (l : ListId) (a : Float) (b : Option Float) :
    ∃ w', (callMethod env (.list l) "slice" (sliceArgs a b) callee).run.run call w =
        some (.ok (.list ⟨w.heap.lists.size⟩), w') ∧
      w'.heap = (w.heap.newList (between (w.heap.items l) a b)).2 := by
  obtain ⟨slots, hitems⟩ := (finds_ask (S := S) (q := .items l)
    (Reading.gives_readItems w.heap l)).run call
  have hheap := w.heap_trackAll slots
  generalize w.trackAll slots = v at hitems hheap
  rw [← hheap] at hitems ⊢
  refine ⟨{ v with heap := (v.heap.newList (between (v.heap.items l) a b)).2 },
    (Expr.run_bind_of_ok hitems _).trans ?_, rfl⟩
  cases b <;> rfl

/-- **Slices partition.** A slice of a text or a list is the part between its two positions, empty
if they are out of order, and a slice of a list is a new list. The slice up to any number and the
one from there on are together the whole. -/
theorem slices_partition (env : Environment S) (callee : Expr) (call : Caller S) :
    (∀ (s : String) (a : Float) (b : Option Float), ∃ front part back : String,
      (∀ w, (callMethod env (.text s) "slice" (sliceArgs a b) callee).run.run call w =
        some (.ok (.text part), w)) ∧
      s = front ++ part ++ back ∧ front.length = clampIndex a s.length ∧
      part.length = stopOf b s.length - clampIndex a s.length) ∧
    (∀ (l : ListId) (a : Float) (b : Option Float) (w : World S), ∃ w' front part back,
      (callMethod env (.list l) "slice" (sliceArgs a b) callee).run.run call w =
        some (.ok (.list ⟨w.heap.lists.size⟩), w') ∧
      w'.heap = (w.heap.newList part).2 ∧
      w.heap.items l = front ++ part ++ back ∧
      front.length = clampIndex a (w.heap.items l).length ∧
      part.length = stopOf b (w.heap.items l).length - clampIndex a (w.heap.items l).length) ∧
    (∀ (s : String) (x : Float), ∃ first rest : String, first ++ rest = s ∧ ∀ w,
      (callMethod env (.text s) "slice" [.number 0, .number x] callee).run.run call w =
        some (.ok (.text first), w) ∧
      (callMethod env (.text s) "slice" [.number x] callee).run.run call w =
        some (.ok (.text rest), w)) ∧
    (∀ (l : ListId) (x : Float) (w : World S), ∃ first rest w' w'',
      (callMethod env (.list l) "slice" [.number 0, .number x] callee).run.run call w =
        some (.ok (.list first), w') ∧
      (callMethod env (.list l) "slice" [.number x] callee).run.run call w' =
        some (.ok (.list rest), w'') ∧
      w''.heap.items first ++ w''.heap.items rest = w.heap.items l) ∧
    ∀ (x : Float) (len : Nat), clampIndex x len =
      if x.isNaN then 0
      else if isNegative x ∧ 0 < ⌊magnitude x⌋₊ then len - ⌊magnitude x⌋₊
      else min ⌊magnitude x⌋₊ len := by
  refine ⟨fun s a b => ?_, fun l a b w => ?_, fun s x => ?_, fun l x w => ?_, clampIndex_eq_floor⟩
  · obtain ⟨front, back, hs, hfront, hpart⟩ := between_eq_parts s.toList a b
    refine ⟨.ofList front, _, .ofList back, fun w => run_slice_text s a b, ?_, ?_, ?_⟩
    · rw [← String.toList_inj]
      simpa using hs
    · simpa [← String.length_toList] using hfront
    · simpa [← String.length_toList] using hpart
  · obtain ⟨w', hrun, hitems⟩ := run_slice_list (w := w) l a b
    obtain ⟨front, back, hparts⟩ := between_eq_parts (w.heap.items l) a b
    exact ⟨w', front, _, back, hrun, hitems, hparts⟩
  · refine ⟨_, _, ?_, fun w => ⟨run_slice_text s 0 (some x), run_slice_text s x none⟩⟩
    rw [← String.ofList_append, between_append, String.ofList_toList]
  · obtain ⟨w', hfirst, hitems⟩ := run_slice_list (w := w) l 0 (some x)
    obtain ⟨w'', hrest, hitems'⟩ := run_slice_list (w := w') l x none
    refine ⟨_, _, w', w'', hfirst, hrest, ?_⟩
    -- a list that is not there is as empty as its slices
    have hsame : w'.heap.items l = w.heap.items l := by
      rw [hitems, Heap.items_newList]
      split
      case isTrue h => simp [Heap.items, h, between, slice]
      case isFalse => rfl
    rw [hitems', hsame, Heap.items_newList, Heap.items_newList, hitems]
    rw [if_neg (by simp [Heap.newList]), if_pos rfl, Heap.items_newList, if_pos rfl]
    exact between_append _ x

end Eval

end LiveMarkup
