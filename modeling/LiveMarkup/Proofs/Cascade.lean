import LiveMarkup.Proofs.Machine
import LiveMarkup.Proofs.Readings
import Mathlib.Algebra.Order.BigOperators.Group.Finset

/-!
# Cascades end

A change to a container runs effects, their writes run more effects, and an effect may end up
running inside itself. The depth limit ends this: a run of an effect that is not refused uses up
one unit of what the limit still leaves to that effect, and gives it back only when it is over. The
units left over all effects, the `room` of a world, therefore bound how deep runs nest, and inside
each run only finitely many operations are performed.
-/

namespace LiveMarkup

open World Program

variable {S : Signature} {α : Type}

/-! ## Code that does finitely much -/

def Query.IsDirect : Query → Prop
  | .property _ _ | .names _ | .entries _ | .size _ => True
  | .item _ _ | .items _ | .length _ | .hostObject _ => True
  | _ => False

/-- Operations that neither run code nor create effects nor move the depth limit. A change to a
container is one of them: the effects it runs are not code of the one who made the change. -/
def Op.IsPlain : Op S → Prop
  | .read q | .peek q => q.IsDirect
  | .call _ | .within _ _ | .spawn _ | .setMaxDepth _ => False
  | _ => True

/-- Programs that, whatever they are answered, perform finitely many operations, those of the code
they call included, and that neither create effects nor move the depth limit. -/
inductive Program.Finite (sem : Semantics S) : {α : Type} → Program S α → Prop
  | done {α : Type} (a : α) : Finite sem (done a)
  | step {α : Type} {op : Op S} {next : op.Reply → Program S α} (plain : op.IsPlain)
      (rest : ∀ r, Finite sem (next r)) : Finite sem (step op next)
  | call (code : Finite sem (sem c)) (rest : ∀ r, Finite sem (next r)) :
      Finite sem (step (.call c) next)
  | within {α : Type} {e : Option EffectId} {c : S.Code} {next : S.Reply c → Program S α}
      (code : Finite sem (sem c)) (rest : ∀ r, Finite sem (next r)) :
      Finite sem (step (.within e c) next)

lemma Query.exists_answer {q : Query} (hq : q.IsDirect) (h : Heap) : ∃ a, q.answer h = some a := by
  cases q with
  | entries o => exact ⟨_, by rw [answer, reading, Heap.readEntries_apply]; rfl⟩
  | items l => exact ⟨_, by rw [answer, reading, Heap.readItems_apply]; rfl⟩
  | property | names | size | item | length | hostObject => exact ⟨_, rfl⟩
  | _ => exact hq.elim

/-! ## What a cascade leaves as it was -/

/-- The effects of the second world are those of the first, some of them disposed of, and as many
of their runs are under way. -/
structure World.Kept (w w' : World S) : Prop where
  size : w'.effects.size = w.effects.size
  depth : ∀ e, w'.effectDepth e = w.effectDepth e
  maxDepth : w'.maxDepth = w.maxDepth
  body : ∀ {e c}, w'.effectBody e = some c → w.effectBody e = some c

namespace World.Kept

lemma refl (w : World S) : w.Kept w := ⟨rfl, fun _ => rfl, rfl, id⟩

lemma trans {w1 w2 w3 : World S} (h : w1.Kept w2) (h' : w2.Kept w3) : w1.Kept w3 where
  size := h'.size.trans h.size
  depth e := (h'.depth e).trans (h.depth e)
  maxDepth := h'.maxDepth.trans h.maxDepth
  body hb := h.body (h'.body hb)

lemma of_effects {w w' : World S} (he : w'.effects = w.effects)
    (hm : w'.maxDepth = w.maxDepth) : w.Kept w' where
  size := by rw [he]
  depth := effectDepth_congr he
  maxDepth := hm
  body hb := by rwa [effectBody_congr he] at hb

lemma dispose (w : World S) (e : EffectId) : w.Kept (w.dispose e) where
  size := size_dispose w e
  depth := effectDepth_dispose w e
  maxDepth := maxDepth_dispose w e
  body := by
    intro e' c hb
    rw [effectBody_dispose] at hb
    split at hb
    · cases hb
    · exact hb

/-- A run that keeps the effects as they were when its body started has kept them altogether. -/
lemma leave {w w1 : World S} {e : EffectId} {c : S.Code} (hb : w.effectBody e = some c)
    (h : (w.enter e).Kept w1) (before : Option EffectId) : w.Kept (w1.leave e before) := by
  have hlt : e.index < w.effects.size := index_lt_of_effectBody hb
  have hsize : w1.effects.size = w.effects.size := by
    rw [h.size, effects_enter, size_modifyDepth]
  refine ⟨(size_modifyDepth _ _ _).trans hsize, ?_, ?_, ?_⟩
  · exact effectDepth_leave hlt (le_of_eq hsize.symm) h.depth before
  · exact h.maxDepth.trans (maxDepth_enter w e)
  · intro e' c' hb'
    rw [World.leave, effectBody_modifyDepth] at hb'
    have hb1 := h.body (e := e') hb'
    rwa [effectBody_congr (effects_enter w e), effectBody_modifyDepth] at hb1

end World.Kept

/-! ## What the limit still leaves -/

/-- How many runs the depth limit leaves to all effects together. -/
def World.room (w : World S) : Nat :=
  ∑ i ∈ Finset.range w.effects.size, (w.maxDepth - w.effectDepth ⟨i⟩)

lemma World.Kept.room {w w' : World S} (h : w.Kept w') : w'.room = w.room := by
  simp only [World.room, h.size, h.maxDepth, h.depth]

lemma World.room_enter_lt {w : World S} (he : e.index < w.effects.size)
    (hd : w.effectDepth e < w.maxDepth) : (w.enter e).room < w.room := by
  have hsize : (w.enter e).effects.size = w.effects.size := by
    rw [effects_enter, size_modifyDepth]
  rw [room, room, hsize, maxDepth_enter]
  refine Finset.sum_lt_sum ?_ ⟨e.index, Finset.mem_range.mpr he, ?_⟩
  · intro i _
    by_cases hi : (⟨i⟩ : EffectId) = e
    · rw [hi, effectDepth_enter_self he]
      omega
    · rw [effectDepth_enter_of_ne w hi]
  · show w.maxDepth - (w.enter e).effectDepth e < w.maxDepth - w.effectDepth e
    rw [effectDepth_enter_self he]
    omega

/-! ## Runs return -/

/-- From a world and whatever a cascade makes of it, every run of an effect returns. -/
def World.Settles (sem : Semantics S) (w : World S) : Prop :=
  ∀ w1, w.Kept w1 → ∀ e, ∃ bound w2, runEffect (sem.caller bound) e w1 = some w2 ∧ w1.Kept w2

namespace World.Settles

variable {sem : Semantics S} {w w1 : World S}

section

variable (hs : w.Settles sem) (hk : w.Kept w1)
include hs hk

lemma runEffects (es : List EffectId) :
    ∃ bound w2, runEffects (sem.caller bound) es w1 = some w2 ∧ w1.Kept w2 := by
  induction es generalizing w1 with
  | nil => exact ⟨0, w1, rfl, .refl w1⟩
  | cons e rest ih =>
    obtain ⟨n, w2, he, hk2⟩ := hs w1 hk e
    obtain ⟨m, w3, hrest, hk3⟩ := ih (hk.trans hk2)
    refine ⟨max n m, w3, ?_, hk2.trans hk3⟩
    rw [runEffects, runEffect_mono (sem.caller_mono (le_max_left n m)) he]
    exact runEffects_mono (sem.caller_mono (le_max_right n m)) hrest

lemma triggerAll (slots : List Slot) :
    ∃ bound w2, triggerAll (sem.caller bound) slots w1 = some w2 ∧ w1.Kept w2 := by
  induction slots generalizing w1 with
  | nil => exact ⟨0, w1, rfl, .refl w1⟩
  | cons s rest ih =>
    obtain ⟨n, w2, ht, hk2⟩ := hs.runEffects hk (w1.registry.subscribersOf s)
    obtain ⟨m, w3, hrest, hk3⟩ := ih (hk.trans hk2)
    refine ⟨max n m, w3, ?_, hk2.trans hk3⟩
    rw [triggerAll, trigger_mono (sem.caller_mono (le_max_left n m)) ht]
    exact triggerAll_mono (sem.caller_mono (le_max_right n m)) hrest

lemma perform {op : Op S} (hop : op.IsPlain) :
    ∃ bound r w2, op.perform (sem.caller bound) w1 = some (r, w2) ∧ w1.Kept w2 := by
  cases op with
  | read q =>
    obtain ⟨a, ha⟩ := Query.exists_answer (q := q) hop w1.heap
    refine ⟨0, a.1, w1.trackAll a.2, ?_, .of_effects (by simp) (by simp)⟩
    simp only [Op.perform, ha, Option.map_some]
  | peek q =>
    obtain ⟨a, ha⟩ := Query.exists_answer (q := q) hop w1.heap
    refine ⟨0, a.1, w1, ?_, .refl w1⟩
    simp only [Op.perform, ha, Option.map_some]
  | write u =>
    have hk' : w1.Kept { w1 with heap := (u.apply w1.heap).2.1 } := .of_effects rfl rfl
    obtain ⟨n, w2, ht, hk2⟩ := hs.triggerAll (hk.trans hk') (u.apply w1.heap).2.2
    refine ⟨n, (u.apply w1.heap).1, w2, ?_, hk'.trans hk2⟩
    simp only [Op.perform, ht, Option.map_some]
  | rerun e =>
    obtain ⟨n, w2, he, hk2⟩ := hs w1 hk e
    refine ⟨n, (), w2, ?_, hk2⟩
    simp only [Op.perform, he, Option.map_some]
  | trigger s =>
    obtain ⟨n, w2, ht, hk2⟩ := hs.runEffects hk (w1.registry.subscribersOf s)
    refine ⟨n, (), w2, ?_, hk2⟩
    simp only [Op.perform, trigger, ht, Option.map_some]
  | dispose e => exact ⟨0, (), w1.dispose e, rfl, .dispose w1 e⟩
  | track s => exact ⟨0, (), w1.track s, rfl, .of_effects (by simp) (by simp)⟩
  | call | within | spawn | setMaxDepth => exact hop.elim
  | _ => exact ⟨0, _, _, rfl, .of_effects rfl rfl⟩

lemma run {p : Program S α} (hp : p.Finite sem) :
    ∃ bound r w2, p.run (sem.caller bound) w1 = some (r, w2) ∧ w1.Kept w2 := by
  induction hp generalizing w1 with
  | done a => exact ⟨0, a, w1, rfl, .refl w1⟩
  | step hop _ ih =>
    obtain ⟨n, r, w2, hr, hk2⟩ := hs.perform hk hop
    obtain ⟨m, a, w3, ha, hk3⟩ := ih r (hk.trans hk2)
    refine ⟨max n m, a, w3, ?_, hk2.trans hk3⟩
    rw [run_step, Op.perform_mono (sem.caller_mono (le_max_left n m)) _ hr]
    exact run_mono (sem.caller_mono (le_max_right n m)) ha
  | call _ _ ihc ih =>
    obtain ⟨n, r, w2, hr, hk2⟩ := ihc hk
    obtain ⟨m, a, w3, ha, hk3⟩ := ih r (hk.trans hk2)
    -- the code itself nests one deeper than its own calls
    rw [← sem.caller_succ] at hr
    refine ⟨max (n + 1) m, a, w3, ?_, hk2.trans hk3⟩
    rw [run_step, Op.perform_mono (sem.caller_mono (le_max_left (n + 1) m)) (.call _) hr]
    exact run_mono (sem.caller_mono (le_max_right (n + 1) m)) ha
  | @within _ e c next _ _ ihc ih =>
    have hk1 : w1.Kept { w1 with active := e } := .of_effects rfl rfl
    obtain ⟨n, r, w2, hr, hk2⟩ := ihc (hk.trans hk1)
    have hk2' : w1.Kept { w2 with active := w1.active } :=
      (hk1.trans hk2).trans (.of_effects rfl rfl)
    obtain ⟨m, a, w3, ha, hk3⟩ := ih r (hk.trans hk2')
    have hw : (Op.within e c).perform (sem.caller (n + 1)) w1 =
        some (r, { w2 with active := w1.active }) := by
      simp only [Op.perform, runWithin, sem.caller_succ, hr]
    refine ⟨max (n + 1) m, a, w3, ?_, hk2'.trans hk3⟩
    rw [run_step, Op.perform_mono (sem.caller_mono (le_max_left (n + 1) m)) _ hw]
    exact run_mono (sem.caller_mono (le_max_right (n + 1) m)) ha

end

/-- Where every effect has finite code, every run of an effect returns. The induction is on the
room that the depth limit leaves. -/
lemma of_finite (hfin : ∀ e c, w.effectBody e = some c → (sem c).Finite sem) : w.Settles sem := by
  induction hroom : w.room using Nat.strong_induction_on generalizing w with
  | _ room ih =>
    intro w1 hk e
    cases hb : w1.effectBody e with
    | none => exact ⟨0, w1, runEffect_of_gone _ hb, .refl w1⟩
    | some c =>
      by_cases hd : w1.effectDepth e < w1.maxDepth
      · have hlt : (w1.enter e).room < room := by
          rw [← hroom, ← hk.room]
          exact room_enter_lt (index_lt_of_effectBody hb) hd
        have hinner : (w1.enter e).Settles sem := by
          refine ih _ hlt ?_ rfl
          intro e' c' hb'
          rw [effectBody_congr (effects_enter w1 e), effectBody_modifyDepth] at hb'
          exact hfin e' c' (hk.body hb')
        obtain ⟨n, r, w2, hr, hk2⟩ := hinner.run (.refl _) (hfin e c (hk.body hb))
        refine ⟨n + 1, w2.leave e w1.active, ?_, .leave hb hk2 w1.active⟩
        rw [runEffect_of_room _ hb hd, sem.caller_succ, hr]
        rfl
      · exact ⟨0, _, runEffect_of_deep _ hb (by omega), .of_effects rfl rfl⟩

end World.Settles

/-- However effects trigger themselves and each other, every change to a container and every run
of an effect returns, with a result that no larger bound changes. -/
theorem World.write_and_rerun_return (sem : Semantics S) (w : World S)
    (hfin : ∀ e c, w.effectBody e = some c → (sem c).Finite sem) :
    (∀ u : Update, ∃ bound r w', ∀ n ≥ bound,
      (Op.write u).perform (sem.caller n) w = some (r, w')) ∧
    (∀ e : EffectId, ∃ bound w', ∀ n ≥ bound,
      (Op.rerun e).perform (sem.caller n) w = some ((), w')) := by
  have hs : w.Settles sem := .of_finite hfin
  constructor
  · intro u
    have hplain : (Op.write u : Op S).IsPlain := trivial
    obtain ⟨bound, r, w', hw, -⟩ := hs.perform (.refl w) hplain
    exact ⟨bound, r, w', fun n hn => Op.perform_mono (sem.caller_mono hn) _ hw⟩
  · intro e
    have hplain : (Op.rerun e : Op S).IsPlain := trivial
    obtain ⟨bound, r, w', hw, -⟩ := hs.perform (.refl w) hplain
    exact ⟨bound, w', fun n hn => Op.perform_mono (sem.caller_mono hn) _ hw⟩

/-! ## An effect that never rests -/

def Blinker : Signature where
  Code := Unit
  Reply _ := Unit
  State := Unit

namespace Blinker

/-- Reads a flag and writes its opposite, which runs whatever effect does this once more. -/
def blink : Semantics Blinker := fun _ =>
  .step (.read (.property ⟨0⟩ "on")) fun (v : Option Value) =>
    .step (.write (.set ⟨0⟩ "on" (.bool (v.all (!·.isTruthy))))) fun _ => .done ()

/-- An effect that blinks and depends on the flag. -/
def world : World Blinker where
  heap := { objects := #[.empty] }
  registry := Registry.empty.track ⟨0⟩ (.property ⟨0⟩ "on")
  effects := #[{ body := some () }]
  state := ()

lemma finite_blink (c : Unit) : (blink c).Finite blink :=
  .step trivial fun _ => .step trivial fun _ => .done ()

theorem write_and_rerun_return_blink :
    world.registry.subscribersOf (.property ⟨0⟩ "on") = [⟨0⟩] ∧
    (∀ u : Update, ∃ bound r w', ∀ n ≥ bound,
      (Op.write u).perform (blink.caller n) world = some (r, w')) ∧
    (∀ e : EffectId, ∃ bound w', ∀ n ≥ bound,
      (Op.rerun e).perform (blink.caller n) world = some ((), w')) :=
  ⟨rfl, World.write_and_rerun_return blink world fun _ c _ => finite_blink c⟩

end Blinker

end LiveMarkup
