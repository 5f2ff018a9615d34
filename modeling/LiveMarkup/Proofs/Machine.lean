import LiveMarkup.Reactive.Machine
import Mathlib.Data.Finset.Sum

/-!
# The machine, one piece at a time

What later modules need to know about `Program.run` and its parts without opening them: how a run
splits at a bind, what each change of the world does to the effects, and that the bound on nesting
only decides whether there is a result and never which one.
-/

namespace LiveMarkup

open List Option World Assoc

variable {w w' : World S} {s : Slot} {r : Registry} {call : Caller S}

/-! ## Runs of composed programs -/

namespace Program

@[simp]
lemma run_done (call : Caller S) (a : α) (w : World S) :
    (done a : Program S α).run call w = some (a, w) := rfl

lemma run_step (call : Caller S) (op : Op S) (next : op.Reply → Program S α) (w : World S) :
    (step op next).run call w = (op.perform call w).bind fun r => (next r.1).run call r.2 := by
  simp only [run]
  cases op.perform call w <;> rfl

lemma of_run_step {next : op.Reply → Program S α}
    (h : (step op next).run call w = some (a, w')) :
    ∃ r w1, op.perform call w = some (r, w1) ∧ (next r).run call w1 = some (a, w') := by
  rw [run_step] at h
  obtain ⟨⟨r, w1⟩, hr, hrest⟩ := bind_eq_some_iff.mp h
  exact ⟨r, w1, hr, hrest⟩

lemma run_perform (call : Caller S) (op : Op S) (w : World S) :
    (perform op).run call w = op.perform call w := by
  rw [perform, run_step]
  cases op.perform call w <;> rfl

lemma run_bind (call : Caller S) (p : Program S α) (f : α → Program S β) (w : World S) :
    (p >>= f).run call w = (p.run call w).bind fun r => (f r.1).run call r.2 := by
  induction p generalizing w with
  | done a => rfl
  | step op next ih =>
    rw [bind_step, run_step, run_step]
    cases op.perform call w with
    | none => rfl
    | some r => exact ih r.1 r.2

end Program

/-! ## The registry -/

namespace Assoc

variable [DecidableEq κ]

lemma get_cons (m : List (κ × List ι)) (k k' : κ) (as : List ι) :
    get ((k, as) :: m) k' = if k' = k then as else get m k' := by
  rw [get, lookup_cons]
  by_cases h : k' = k
  · simp [h]
  · have hne : (k' == k) = false := by simpa using h
    simp [h, hne, get]

lemma get_push (m : List (κ × List ι)) (k k' : κ) (a : ι) :
    get (push m k a) k' = if k' = k then get m k ++ [a] else get m k' := by
  induction m with
  | nil =>
    rw [push, get_cons]
    rfl
  | cons p rest ih =>
    obtain ⟨k1, as⟩ := p
    rw [push]
    by_cases h1 : k1 = k
    · subst h1
      by_cases h : k' = k1 <;> simp [get_cons, h]
    · by_cases h : k' = k1
      · subst h
        simp [get_cons, h1]
      · rw [if_neg h1, get_cons, get_cons, get_cons, if_neg h, if_neg h, if_neg (Ne.symm h1), ih]

lemma fst_mem_push {p : κ × List ι} (h : p ∈ push m k a) : p.1 = k ∨ ∃ q ∈ m, q.1 = p.1 := by
  induction m with
  | nil =>
    rw [push, mem_singleton] at h
    exact .inl (by rw [h])
  | cons q rest ih =>
    obtain ⟨k1, as⟩ := q
    rw [push] at h
    split at h
    case isTrue heq =>
      rcases mem_cons.mp h with rfl | h
      · exact .inl heq
      · exact .inr ⟨p, mem_cons_of_mem _ h, rfl⟩
    case isFalse =>
      rcases mem_cons.mp h with rfl | h
      · exact .inr ⟨_, mem_cons_self, rfl⟩
      · rcases ih h with h | ⟨q, hq, hfst⟩
        · exact .inl h
        · exact .inr ⟨q, mem_cons_of_mem _ hq, hfst⟩

end Assoc

namespace Registry

@[simp]
lemma mem_subscribersOf_track :
    e' ∈ (r.track e s).subscribersOf s' ↔ e' ∈ r.subscribersOf s' ∨ (e' = e ∧ s' = s) := by
  rw [track]
  split
  case isTrue h =>
    constructor
    · exact .inl
    · rintro (h' | ⟨rfl, rfl⟩)
      · exact h'
      · exact h
  case isFalse h =>
    rw [subscribersOf, get_push]
    by_cases hs : s' = s
    · subst hs
      rw [if_pos rfl, mem_append, mem_singleton]
      simp only [and_true]
      rfl
    · simp only [hs, and_false, or_false]
      rfl

lemma mem_get_unsubscribe (hne : e' ≠ e) (h : e' ∈ get m s) :
    e' ∈ get (unsubscribe e slots m) s := by
  induction m with
  | nil => exact h
  | cons p rest ih =>
    obtain ⟨s1, es⟩ := p
    rw [get_cons] at h
    rw [unsubscribe, filterMap_cons]
    by_cases hin : s1 ∈ slots
    · by_cases hs : s = s1
      · have hkept : e' ∈ es.filter (· ≠ e) := by
          rw [if_pos hs] at h
          exact mem_filter.mpr ⟨h, by simpa using hne⟩
        have hfull : (es.filter (· ≠ e)).isEmpty = false := by
          rw [isEmpty_eq_false_iff_exists_mem]
          exact ⟨e', hkept⟩
        simpa only [if_pos hin, hfull, Bool.false_eq_true, if_false, get_cons, if_pos hs]
          using hkept
      · rw [if_neg hs] at h
        simp only [if_pos hin]
        split
        · exact ih h
        · rename_i hsome
          split at hsome
          · cases hsome
          · cases hsome
            rw [get_cons, if_neg hs]
            exact ih h
    · simp only [if_neg hin, get_cons]
      split
      · rename_i hs
        rwa [if_pos hs] at h
      · rename_i hs
        rw [if_neg hs] at h
        exact ih h

lemma mem_subscribersOf_clearDependencies (hne : e' ≠ e) (h : e' ∈ r.subscribersOf s) :
    e' ∈ (r.clearDependencies e).subscribersOf s :=
  mem_get_unsubscribe hne h

lemma fst_mem_clearDependencies (h : p ∈ (r.clearDependencies e).subscribers) :
    ∃ q ∈ r.subscribers, q.1 = p.1 := by
  obtain ⟨q, hq, hp⟩ := mem_filterMap.mp h
  refine ⟨q, hq, ?_⟩
  simp only at hp
  split at hp
  · split at hp
    · cases hp
    · cases hp
      rfl
  · cases hp
    rfl

lemma fst_mem_track (h : p ∈ (r.track e s).subscribers) :
    p.1 = s ∨ ∃ q ∈ r.subscribers, q.1 = p.1 := by
  rw [track] at h
  split at h
  · exact .inr ⟨p, h, rfl⟩
  · exact fst_mem_push h

end Registry

/-! ## Effects of a changed world -/

namespace World

lemma effectBody_congr (h : w'.effects = w.effects) (e : EffectId) :
    w'.effectBody e = w.effectBody e := by
  rw [effectBody, effectBody, h]

lemma effectDepth_congr (h : w'.effects = w.effects) (e : EffectId) :
    w'.effectDepth e = w.effectDepth e := by
  rw [effectDepth, effectDepth, h]

section

variable (w)

@[simp]
lemma size_modifyDepth (e : EffectId) (f : Nat → Nat) :
    (w.modifyDepth e f).effects.size = w.effects.size := by
  simp [modifyDepth]

@[simp]
lemma effectBody_modifyDepth (e e' : EffectId) (f : Nat → Nat) :
    (w.modifyDepth e f).effectBody e' = w.effectBody e' := by
  simp only [effectBody, modifyDepth, Array.getElem?_modify]
  split
  · cases w.effects[e'.index]? <;> rfl
  · rfl

lemma effectDepth_modifyDepth_self (f : Nat → Nat) (he : e.index < w.effects.size) :
    (w.modifyDepth e f).effectDepth e = f (w.effectDepth e) := by
  simp only [effectDepth, modifyDepth, Array.getElem?_modify, if_pos]
  rw [Array.getElem?_eq_getElem he]
  rfl

lemma effectDepth_modifyDepth_of_ne (f : Nat → Nat)
    (h : e' ≠ e) : (w.modifyDepth e f).effectDepth e' = w.effectDepth e' := by
  have hi : e.index ≠ e'.index := fun hi => h (congrArg EffectId.mk hi.symm)
  simp only [effectDepth, modifyDepth, Array.getElem?_modify, if_neg hi]

end

lemma index_lt_of_effectBody (h : w.effectBody e = some c) : e.index < w.effects.size := by
  by_contra hlt
  rw [effectBody, Array.getElem?_eq_none (Nat.le_of_not_lt hlt)] at h
  cases h

section

variable (w)

/-- Tracking touches the registry only. -/
lemma trackAll_eq (slots : List Slot) :
    w.trackAll slots = { w with registry := (w.trackAll slots).registry } := by
  induction slots generalizing w with
  | nil => rfl
  | cons s rest ih =>
    show (w.track s).trackAll rest = { w with registry := ((w.track s).trackAll rest).registry }
    rw [ih (w.track s), track]
    split <;> rfl

@[simp]
lemma effects_trackAll (slots : List Slot) : (w.trackAll slots).effects = w.effects := by
  rw [trackAll_eq]

@[simp]
lemma effects_track (s : Slot) : (w.track s).effects = w.effects :=
  effects_trackAll w [s]

@[simp]
lemma maxDepth_trackAll (slots : List Slot) : (w.trackAll slots).maxDepth = w.maxDepth := by
  rw [trackAll_eq]

@[simp]
lemma maxDepth_track (s : Slot) : (w.track s).maxDepth = w.maxDepth :=
  maxDepth_trackAll w [s]

@[simp]
lemma active_trackAll (slots : List Slot) : (w.trackAll slots).active = w.active := by
  rw [trackAll_eq]

@[simp]
lemma active_track (s : Slot) : (w.track s).active = w.active :=
  active_trackAll w [s]

@[simp]
lemma state_trackAll (slots : List Slot) : (w.trackAll slots).state = w.state := by
  rw [trackAll_eq]

@[simp]
lemma heap_trackAll (slots : List Slot) : (w.trackAll slots).heap = w.heap := by
  rw [trackAll_eq]

end

lemma trackAll_of_inactive (ha : w.active = none) (slots : List Slot) : w.trackAll slots = w := by
  induction slots with
  | nil => rfl
  | cons s rest ih =>
    have hs : w.track s = w := by rw [track, ha]
    rw [trackAll, foldl_cons, hs]
    exact ih

lemma registry_trackAll_congr {v : World S} (hr : v.registry = w.registry)
    (ha : v.active = w.active) (slots : List Slot) :
    (v.trackAll slots).registry = (w.trackAll slots).registry := by
  induction slots generalizing w v with
  | nil => exact hr
  | cons s rest ih =>
    have hs : (v.track s).registry = (w.track s).registry := by
      rw [track, track, ha]
      split
      · exact hr
      · rw [hr]
    exact ih hs (by rw [active_track, active_track, ha])

lemma trackAll_append (w : World S) (slots more : List Slot) :
    w.trackAll (slots ++ more) = (w.trackAll slots).trackAll more :=
  foldl_append

/-- The running effect is subscribed to what is tracked, and everybody else to what they were. -/
lemma mem_subscribersOf_trackAll (ha : w.active = some e) (slots : List Slot) :
    e' ∈ (w.trackAll slots).registry.subscribersOf s ↔
      e' ∈ w.registry.subscribersOf s ∨ e' = e ∧ s ∈ slots := by
  induction slots generalizing w with
  | nil => simp [trackAll]
  | cons t rest ih =>
    have ha' : (w.track t).active = some e := by rw [active_track, ha]
    have hreg : (w.track t).registry = w.registry.track e t := by
      rw [track, ha]
    have hstep : w.trackAll (t :: rest) = (w.track t).trackAll rest := rfl
    rw [hstep, ih ha', hreg, Registry.mem_subscribersOf_track, mem_cons]
    tauto

section

variable (w)

@[simp]
lemma size_dispose (e : EffectId) : (w.dispose e).effects.size = w.effects.size := by
  rw [dispose]
  split <;> simp

lemma effectBody_dispose (e e' : EffectId) :
    (w.dispose e).effectBody e' = if e' = e then none else w.effectBody e' := by
  rw [dispose]
  split
  case h_1 hnone =>
    split
    · rename_i heq
      rw [heq, hnone]
    · rfl
  case h_2 =>
    simp only [effectBody, Array.getElem?_modify]
    by_cases h : e' = e
    · subst h
      rw [if_pos rfl, if_pos rfl]
      cases w.effects[e'.index]? <;> rfl
    · have hi : e.index ≠ e'.index := fun hi => h (congrArg EffectId.mk hi.symm)
      rw [if_neg hi, if_neg h]

@[simp]
lemma effectDepth_dispose (e e' : EffectId) : (w.dispose e).effectDepth e' = w.effectDepth e' := by
  rw [dispose]
  split
  · rfl
  · simp only [effectDepth, Array.getElem?_modify]
    split
    · cases w.effects[e'.index]? <;> rfl
    · rfl

@[simp]
lemma maxDepth_dispose (e : EffectId) : (w.dispose e).maxDepth = w.maxDepth := by
  rw [dispose]
  split <;> rfl

end

lemma effectDepth_of_size_le (h : w.effects.size ≤ e.index) : w.effectDepth e = 0 := by
  rw [effectDepth, Array.getElem?_eq_none h]
  rfl

section

variable (w)

lemma effectBody_newEffect (c : S.Code) (e : EffectId) : (w.newEffect c).2.effectBody e =
      if e.index = w.effects.size then some c else w.effectBody e := by
  simp only [newEffect, effectBody, Array.getElem?_push]
  split <;> rfl

lemma effectDepth_newEffect (c : S.Code) (e : EffectId) :
    (w.newEffect c).2.effectDepth e = w.effectDepth e := by
  simp only [newEffect, effectDepth, Array.getElem?_push]
  split
  · rename_i h
    rw [Array.getElem?_eq_none (Nat.le_of_eq h.symm)]
    rfl
  · rfl

/-! ## One run of an effect -/

@[simp]
lemma heap_enter (e : EffectId) : (w.enter e).heap = w.heap := by
  simp only [enter]
  split <;> rfl

@[simp]
lemma registry_enter (e : EffectId) : (w.enter e).registry = w.registry.clearDependencies e := by
  simp only [enter]
  split <;> rfl

@[simp]
lemma state_enter (e : EffectId) : (w.enter e).state = w.state := by
  simp only [enter]
  split <;> rfl

@[simp]
lemma maxDepth_enter (e : EffectId) : (w.enter e).maxDepth = w.maxDepth := by
  simp only [enter]
  split <;> rfl

@[simp]
lemma active_enter (e : EffectId) : (w.enter e).active = some e := rfl

@[simp]
lemma effects_enter (e : EffectId) : (w.enter e).effects = (w.modifyDepth e (· + 1)).effects := by
  simp only [enter]
  split <;> rfl

lemma effectBody_enter (e e' : EffectId) : (w.enter e).effectBody e' = w.effectBody e' := by
  rw [effectBody_congr (effects_enter w e), effectBody_modifyDepth]

lemma effectBody_leave (e e' : EffectId) (before : Option EffectId) :
    (w.leave e before).effectBody e' = w.effectBody e' := by
  rw [leave, effectBody_modifyDepth]
  rfl

end

lemma effectDepth_enter_self (he : e.index < w.effects.size) :
    (w.enter e).effectDepth e = w.effectDepth e + 1 := by
  rw [effectDepth_congr (effects_enter w e), effectDepth_modifyDepth_self _ _ he]

lemma effectDepth_enter_of_ne (w : World S) (h : e' ≠ e) :
    (w.enter e).effectDepth e' = w.effectDepth e' := by
  rw [effectDepth_congr (effects_enter w e), effectDepth_modifyDepth_of_ne _ _ h]

lemma effectDepth_leave {w1 : World S} (he : e.index < w.effects.size)
    (hsize : w.effects.size ≤ w1.effects.size)
    (h : ∀ e', w1.effectDepth e' = (w.enter e).effectDepth e') (before : Option EffectId)
    (e' : EffectId) : (w1.leave e before).effectDepth e' = w.effectDepth e' := by
  have hactive : ({ w1 with active := before } : World S).effectDepth e' = w1.effectDepth e' := rfl
  by_cases heq : e' = e
  · subst heq
    have he1 : e'.index < ({ w1 with active := before } : World S).effects.size :=
      Nat.lt_of_lt_of_le he hsize
    rw [leave, effectDepth_modifyDepth_self _ _ he1, hactive, h, effectDepth_enter_self he]
    exact Nat.add_sub_cancel _ 1
  · rw [leave, effectDepth_modifyDepth_of_ne _ _ heq, hactive, h, effectDepth_enter_of_ne w heq]

lemma effectDepth_leave_le (w : World S) (e : EffectId) (before : Option EffectId) (e' : EffectId) :
    (w.leave e before).effectDepth e' ≤ w.effectDepth e' := by
  simp only [leave, modifyDepth, effectDepth, Array.getElem?_modify]
  split
  · cases w.effects[e'.index]? with
    | none => exact Nat.le_refl 0
    | some x => exact Nat.sub_le x.depth 1
  · exact Nat.le_refl _

lemma runEffect_of_gone (call : Caller S)
    (h : w.effectBody e = none) : runEffect call e w = some w := by
  rw [runEffect, h]

lemma runEffect_of_deep (call : Caller S) (h : w.effectBody e = some c)
    (hd : w.maxDepth < w.effectDepth e + 1) :
    runEffect call e w = some (w.write [.event .effectTooDeep]) := by
  rw [runEffect, h]
  exact if_pos hd

lemma runEffect_of_room (call : Caller S) (h : w.effectBody e = some c)
    (hd : w.effectDepth e < w.maxDepth) :
    runEffect call e w = (call c (w.enter e)).map fun r => r.2.leave e w.active := by
  have hd' : ¬ w.maxDepth < w.effectDepth e + 1 := by omega
  rw [runEffect, h]
  exact if_neg hd'

/-- What a run of an effect can be: nothing for an effect that ended, a refusal, or its body
between `enter` and `leave`. -/
lemma runEffect_cases (h : runEffect call e w = some w') : (w.effectBody e = none ∧ w' = w) ∨
    (∃ c, w.effectBody e = some c ∧ w.maxDepth < w.effectDepth e + 1 ∧
      w' = w.write [.event .effectTooDeep]) ∨
    (∃ c r w1, w.effectBody e = some c ∧ w.effectDepth e < w.maxDepth ∧
      call c (w.enter e) = some (r, w1) ∧ w' = w1.leave e w.active) := by
  cases hb : w.effectBody e with
  | none =>
    rw [runEffect_of_gone call hb] at h
    exact .inl ⟨rfl, (some.inj h).symm⟩
  | some c =>
    by_cases hd : w.maxDepth < w.effectDepth e + 1
    · rw [runEffect_of_deep call hb hd] at h
      exact .inr (.inl ⟨c, rfl, hd, (some.inj h).symm⟩)
    · have hroom : w.effectDepth e < w.maxDepth := by omega
      rw [runEffect_of_room call hb hroom] at h
      obtain ⟨⟨r, w1⟩, hc, hw⟩ := map_eq_some_iff.mp h
      exact .inr (.inr ⟨c, r, w1, rfl, hroom, hc, hw.symm⟩)

end World

/-! ## What every run keeps -/

def Op.IsInert : Op S → Prop
  | .write _ | .call _ | .within _ _ | .spawn _ | .rerun _ | .trigger _ => False
  | _ => True

/-- All operations of a program, whatever it is answered, are of a kind. -/
def Program.Only (kind : Op S → Prop) : Program S α → Prop
  | .done _ => True
  | .step op next => kind op ∧ ∀ r, (next r).Only kind

/-- A relation between earlier and later worlds that holds across every single step, if the
operations are of a kind: across those that run no code, and across the two ends of a run of an
effect when it holds across the body. -/
structure World.Frame (kind : Op S → Prop) (R : World S → World S → Prop) : Prop where
  refl : ∀ w, R w w
  trans : ∀ {w1 w2 w3}, R w1 w2 → R w2 w3 → R w1 w3
  inert : ∀ {call : Caller S} {op : Op S} {w w'} {r : op.Reply}, op.IsInert → kind op →
    op.perform call w = some (r, w') → R w w'
  heap : ∀ w h, R w { w with heap := h }
  newEffect : ∀ w c, R w (w.newEffect c).2
  within : ∀ {w w' e}, R { w with active := e } w' → R w { w' with active := w.active }
  refused : ∀ w, R w (w.write [.event .effectTooDeep])
  leave : ∀ {w w1 e c}, w.effectBody e = some c → R (w.enter e) w1 → R w (w1.leave e w.active)

def Caller.Across (R : World S → World S → Prop) (call : Caller S) : Prop :=
  ∀ {c w r w'}, call c w = some (r, w') → R w w'

namespace World.Frame

section

variable (hR : Frame kind R) (hcall : call.Across R)
include hR hcall

lemma runWithin {e : Option EffectId} {r : S.Reply c} (h : runWithin call e c w = some (r, w')) :
    R w w' := by
  rw [World.runWithin] at h
  split at h
  · cases h
  · rename_i r1 w1 hc
    cases h
    exact hR.within (hcall hc)

lemma runEffect (h : runEffect call e w = some w') : R w w' := by
  rcases runEffect_cases h with ⟨-, rfl⟩ | ⟨c, -, -, rfl⟩ | ⟨c, r, w1, hb, -, hc, rfl⟩
  · exact hR.refl w'
  · exact hR.refused w
  · exact hR.leave hb (hcall hc)

lemma runEffects (h : runEffects call es w = some w') : R w w' := by
  induction es generalizing w with
  | nil =>
    cases h
    exact hR.refl _
  | cons e rest ih =>
    rw [runEffects] at h
    split at h
    · cases h
    · rename_i w1 he
      exact hR.trans (hR.runEffect hcall he) (ih h)

lemma triggerAll (h : triggerAll call slots w = some w') : R w w' := by
  induction slots generalizing w with
  | nil =>
    cases h
    exact hR.refl _
  | cons s rest ih =>
    rw [triggerAll] at h
    split at h
    · cases h
    · rename_i w1 hs
      exact hR.trans (hR.runEffects hcall hs) (ih h)

lemma perform {op : Op S} (hop : kind op) {r : op.Reply} (h : op.perform call w = some (r, w')) :
    R w w' := by
  cases op with
  | write u =>
    obtain ⟨w1, ht, ⟨⟩⟩ := map_eq_some_iff.mp h
    exact hR.trans (hR.heap w (u.apply w.heap).2.1) (hR.triggerAll hcall ht)
  | call c => exact hcall h
  | within e c => exact hR.runWithin hcall h
  | spawn c =>
    obtain ⟨w1, he, ⟨⟩⟩ := map_eq_some_iff.mp h
    exact hR.trans (hR.newEffect w c) (hR.runEffect hcall he)
  | rerun e =>
    obtain ⟨w1, he, ⟨⟩⟩ := map_eq_some_iff.mp h
    exact hR.runEffect hcall he
  | trigger s =>
    obtain ⟨w1, ht, ⟨⟩⟩ := map_eq_some_iff.mp h
    exact hR.runEffects hcall ht
  | _ => exact hR.inert (by trivial) hop h

lemma run {p : Program S α} (hp : p.Only kind) {a : α} (h : p.run call w = some (a, w')) :
    R w w' := by
  induction p generalizing w with
  | done b =>
    cases h
    exact hR.refl _
  | step op next ih =>
    obtain ⟨r, w1, hop, hrest⟩ := Program.of_run_step h
    exact hR.trans (hR.perform hcall hp.1 hop) (ih r (hp.2 r) hrest)

end

lemma caller (hR : Frame kind R) {sem : Semantics S} (hsem : ∀ c, (sem c).Only kind)
    (bound : Nat) : (sem.caller bound).Across R := by
  induction bound with
  | zero => exact nofun
  | succ n ih => exact fun {c} {_} {_} {_} h => hR.run ih (hsem c) h

end World.Frame

/-! ## The bound on nesting -/

def Caller.Le (call call' : Caller S) : Prop :=
  ∀ c w r, call c w = some r → call' c w = some r

namespace World

section

variable (h : call.Le call')
include h

lemma runWithin_mono {e : Option EffectId} {r : S.Reply c × World S}
    (hr : runWithin call e c w = some r) : runWithin call' e c w = some r := by
  rw [runWithin] at hr ⊢
  split at hr
  · cases hr
  · rwa [h _ _ _ ‹_›]

lemma runEffect_mono (hr : runEffect call e w = some w') : runEffect call' e w = some w' := by
  rcases runEffect_cases hr with ⟨hb, rfl⟩ | ⟨c, hb, hd, rfl⟩ | ⟨c, r, w1, hb, hd, hc, rfl⟩
  · exact runEffect_of_gone call' hb
  · exact runEffect_of_deep call' hb hd
  · rw [runEffect_of_room call' hb hd, h _ _ _ hc]
    rfl

lemma runEffects_mono (hr : runEffects call es w = some w') : runEffects call' es w = some w' := by
  induction es generalizing w with
  | nil => exact hr
  | cons e rest ih =>
    rw [runEffects] at hr ⊢
    split at hr
    · cases hr
    · rw [runEffect_mono h ‹_›]
      exact ih hr

lemma trigger_mono (hr : trigger call s w = some w') : trigger call' s w = some w' :=
  runEffects_mono h hr

lemma triggerAll_mono (hr : triggerAll call slots w = some w') :
    triggerAll call' slots w = some w' := by
  induction slots generalizing w with
  | nil => exact hr
  | cons s rest ih =>
    rw [triggerAll] at hr ⊢
    split at hr
    · cases hr
    · rw [trigger_mono h ‹_›]
      exact ih hr

end

end World

lemma Op.perform_mono (h : call.Le call') (op : Op S) {r : op.Reply × World S}
    (hr : op.perform call w = some r) : op.perform call' w = some r := by
  cases op with
  | write u =>
    obtain ⟨w1, hw, rfl⟩ := map_eq_some_iff.mp hr
    exact map_eq_some_iff.mpr ⟨w1, triggerAll_mono h hw, rfl⟩
  | call c => exact h c w r hr
  | within e c => exact runWithin_mono h hr
  | spawn | rerun =>
    obtain ⟨w1, hw, rfl⟩ := map_eq_some_iff.mp hr
    exact map_eq_some_iff.mpr ⟨w1, runEffect_mono h hw, rfl⟩
  | trigger s =>
    obtain ⟨w1, hw, rfl⟩ := map_eq_some_iff.mp hr
    exact map_eq_some_iff.mpr ⟨w1, trigger_mono h hw, rfl⟩
  | _ => exact hr

lemma Program.run_mono (h : call.Le call') {p : Program S α} {r : α × World S}
    (hr : p.run call w = some r) : p.run call' w = some r := by
  induction p generalizing w with
  | done a => exact hr
  | step op next ih =>
    rw [Program.run_step] at hr ⊢
    obtain ⟨q, hq, hnext⟩ := bind_eq_some_iff.mp hr
    rw [Op.perform_mono h op hq]
    exact ih q.1 hnext

lemma Semantics.caller_succ (sem : Semantics S) (n : Nat) (c : S.Code) (w : World S) :
    sem.caller (n + 1) c w = (sem c).run (sem.caller n) w := rfl

/-- Callers that run code as it says, as far as they run it at all. -/
structure Semantics.Admits (sem : Semantics S) (calls : Nat → Caller S) : Prop where
  zero : ∀ c w, calls 0 c w = none
  succ : ∀ {n c w r}, calls (n + 1) c w = some r → (sem c).run (calls n) w = some r

lemma Semantics.admits_caller (sem : Semantics S) : sem.Admits sem.caller := ⟨fun _ _ => rfl, id⟩

lemma Semantics.caller_mono (sem : Semantics S) {n m : Nat} (h : n ≤ m) :
    (sem.caller n).Le (sem.caller m) := by
  induction m generalizing n with
  | zero =>
    obtain rfl : n = 0 := by omega
    exact fun _ _ _ hr => hr
  | succ m ih =>
    intro c w r hr
    cases n with
    | zero => cases hr
    | succ n => exact Program.run_mono (ih (by omega)) hr

end LiveMarkup
