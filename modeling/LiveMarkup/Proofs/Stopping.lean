import LiveMarkup.Proofs.Machine
import LiveMarkup.Reactive.Overflow

/-!
# Runs that stop

A run that has no result is followed to the operation it stopped at with the bound that it was run
with. The bound does not matter: code that stops at an overflow has no result with any other bound
either, `Semantics.sound_alarm`.
-/

namespace LiveMarkup

open World

variable {S : Signature} {sem : Semantics S} {n k : Nat}

/-- What there is with one bound, there is with another bound or there is nothing. -/
lemma Semantics.none_or_eq {β : Type} {f : Caller S → Option β} {x : β}
    (hmono : ∀ {call call' : Caller S} {y}, call.Le call' → f call = some y → f call' = some y)
    (h : f (sem.caller n) = some x) (k : Nat) :
    f (sem.caller k) = none ∨ f (sem.caller k) = some x := by
  cases hk : f (sem.caller k) with
  | none => exact .inl rfl
  | some y =>
    have hx := hmono (sem.caller_mono (le_max_left n k)) h
    rw [hmono (sem.caller_mono (le_max_right n k)) hk] at hx
    exact .inr hx

/-- Code for which the alarm goes off has no result, however deep calls may nest. -/
def Alarm.Sound (sem : Semantics S) (alarm : Alarm S) : Prop :=
  ∀ {c w}, alarm c w = true → ∀ bound, sem.caller bound c w = none

namespace Alarm.Sound

variable {alarm : Alarm S} (ha : alarm.Sound sem) {w : World S}
include ha

lemma runEffect (hnone : World.runEffect (sem.caller n) e w = none)
    (h : effectOverflows alarm e w = true) (k : Nat) :
    World.runEffect (sem.caller k) e w = none := by
  obtain ⟨c, hb, hc⟩ := (Option.any_eq_true _ _).mp h
  by_cases hd : w.maxDepth < w.effectDepth e + 1
  · rw [runEffect_of_deep _ hb hd] at hnone
    cases hnone
  · rw [runEffect_of_room _ hb (by omega), ha hc k]
    rfl

lemma runEffects {es : List EffectId} (h : effectsOverflow (sem.caller n) alarm es w = true)
    (k : Nat) : World.runEffects (sem.caller k) es w = none := by
  induction es generalizing w with
  | nil => cases h
  | cons e rest ih =>
    rw [effectsOverflow] at h
    rw [World.runEffects]
    split at h
    · rename_i hnone
      rw [ha.runEffect hnone h k]
    · rename_i w1 he
      -- if the first effect returns with this bound too, it leads to the same world
      rcases Semantics.none_or_eq (f := (World.runEffect · e w)) (runEffect_mono ·) he k with hk | hk
      · rw [hk]
      · rw [hk]
        exact ih h

lemma triggerAll {slots : List Slot} (h : slotsOverflow (sem.caller n) alarm slots w = true)
    (k : Nat) : World.triggerAll (sem.caller k) slots w = none := by
  induction slots generalizing w with
  | nil => cases h
  | cons s rest ih =>
    rw [slotsOverflow] at h
    rw [World.triggerAll]
    split at h
    · rw [trigger, ha.runEffects h k]
    · rename_i w1 hs
      rcases Semantics.none_or_eq (f := (World.trigger · s w)) (trigger_mono ·) hs k with hk | hk
      · rw [hk]
      · rw [hk]
        exact ih h

lemma perform {op : Op S} (hnone : op.perform (sem.caller n) w = none)
    (h : op.overflows (sem.caller n) alarm w = true) (k : Nat) :
    op.perform (sem.caller k) w = none := by
  cases op with
  | read q | peek q => exact hnone
  | write u => exact Option.map_eq_none_iff.mpr (ha.triggerAll h k)
  | call c => exact ha h k
  | within e c =>
    rw [Op.perform, runWithin, ha h k]
  | spawn c | rerun e =>
    exact Option.map_eq_none_iff.mpr (ha.runEffect (Option.map_eq_none_iff.mp hnone) h k)
  | trigger s => exact Option.map_eq_none_iff.mpr (ha.runEffects h k)
  | _ => cases h

lemma run {α : Type} {p : Program S α} (h : p.overflows (sem.caller n) alarm w = true) (k : Nat) :
    p.run (sem.caller k) w = none := by
  induction p generalizing w with
  | done a => cases h
  | step op next ih =>
    rw [Program.overflows] at h
    rw [Program.run]
    split at h
    · rename_i hnone
      rw [ha.perform hnone h k]
    · rename_i r w1 hop
      rcases Semantics.none_or_eq (f := (op.perform · w)) (op.perform_mono ·) hop k with hk | hk
      · rw [hk]
      · rw [hk]
        exact ih r h

end Alarm.Sound

lemma Semantics.sound_alarm (sem : Semantics S) (n : Nat) : (sem.alarm n).Sound sem := by
  induction n with
  | zero => exact fun h => nomatch h
  | succ n ih =>
    intro c w h bound
    cases bound with
    | zero => rfl
    | succ k => exact ih.run h k

end LiveMarkup
