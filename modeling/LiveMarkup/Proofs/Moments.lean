import LiveMarkup.Proofs.Cascade

/-!
# The moments of a run

`Program.run` says what a run comes to, if it comes to an end. For what holds on the way the machine
takes one step after the other: between two steps it is at a `Moment`, which knows the program that
goes on, the world, and what is waiting for the program's result. `Moment.next` takes one step, and
`Semantics.after` counts the moments of a run from the first one on.

The two ways to run a program agree, `Program.run_iff_after`: a run has a result exactly when its
moments come to an end with that result. So a statement about all moments is a statement about every
run, and about those that never end as well.

For invariants one view of a step is enough: `Moment.Step.shift` says what becomes of the world.
-/

namespace LiveMarkup

open World Semantics

open Option (bind_eq_some_iff map_eq_some_iff)
open World (runEffect runEffects triggerAll triggerAll_mono)

/-! ## Moments and steps -/

/-- What waits for the result of a program. -/
inductive Pending (S : Signature) : Type → Type 1
  /-- Nothing does: the result is that of the whole run. -/
  | nothing {α : Type} : Pending S α
  /-- Another program goes on with it. -/
  | goOn {α β : Type} (next : α → Program S β) (k : Pending S β) : Pending S α
  /-- An effect becomes the running one again. -/
  | restore {α : Type} (before : Option EffectId) (k : Pending S α) : Pending S α
  /-- A run of an effect ends, and the turn comes to the effects and slots that are left. -/
  | leave {α : Type} (e : EffectId) (before : Option EffectId) (es : List EffectId)
      (slots : List Slot) (k : Pending S Unit) : Pending S α
  /-- The first run of a new effect is over, and whoever created it goes on. -/
  | born {β : Type} (e : EffectId) (next : EffectId → Program S β) (k : Pending S β) :
      Pending S Unit

/-- A moment of a run: a program is about to go on, or effects and then slots are waiting for their
turn. -/
inductive Moment (S : Signature) : Type 1
  | code {α : Type} (p : Program S α) (k : Pending S α) (w : World S)
  | turns (es : List EffectId) (slots : List Slot) (k : Pending S Unit) (w : World S)

def Moment.world : Moment S → World S
  | .code _ _ w => w
  | .turns _ _ _ w => w

/-- What waits takes its turn with a result. -/
def Pending.resume {α : Type} : Pending S α → α → World S → Option (Moment S)
  | .nothing, _, _ => none
  | .goOn next k, a, w => some (.code (next a) k w)
  | .restore before k, a, w => some (.code (.done a) k { w with active := before })
  | .leave e before es slots k, _, w => some (.turns es slots k (w.leave e before))
  | .born e next k, _, w => some (.code (next e) k w)

/-- A program takes its next step: operations that run no code are performed at once, and the code
that the others run comes first. -/
def Op.start (sem : Semantics S) {α : Type} :
    (op : Op S) → (op.Reply → Program S α) → Pending S α → World S → Option (Moment S)
  | .write u, next, k, w =>
    some (.turns [] (u.apply w.heap).2.2 (.goOn (fun _ => next (u.apply w.heap).1) k)
      { w with heap := (u.apply w.heap).2.1 })
  | .call c, next, k, w => some (.code (sem c) (.goOn next k) w)
  | .within e c, next, k, w =>
    some (.code (sem c) (.restore w.active (.goOn next k)) { w with active := e })
  | .spawn c, next, k, w =>
    some (.turns [(w.newEffect c).1] [] (.born (w.newEffect c).1 next k) (w.newEffect c).2)
  | .rerun e, next, k, w => some (.turns [e] [] (.goOn next k) w)
  | .trigger s, next, k, w => some (.turns (w.registry.subscribersOf s) [] (.goOn next k) w)
  | op, next, k, w => (op.perform (fun _ _ => none) w).map fun r => .code (next r.1) k r.2

/-- The moment after a moment. There is none when the run is over, or when a question has no
answer. -/
def Moment.next (sem : Semantics S) : Moment S → Option (Moment S)
  | .code (.done a) k w => k.resume a w
  | .code (.step op next) k w => op.start sem next k w
  | .turns [] [] k w => some (.code (.done ()) k w)
  | .turns [] (s :: slots) k w => some (.turns (w.registry.subscribersOf s) slots k w)
  | .turns (e :: es) slots k w =>
    match w.effectBody e with
    | none => some (.turns es slots k w)
    | some c =>
      if w.maxDepth < w.effectDepth e + 1 then
        some (.turns es slots k (w.write [.event .effectTooDeep]))
      else some (.code (sem c) (.leave e w.active es slots k) (w.enter e))

/-- The moment that comes `n` steps after another one. -/
def Semantics.after (sem : Semantics S) : Moment S → Nat → Option (Moment S)
  | m, 0 => some m
  | m, n + 1 => (m.next sem).bind fun m' => sem.after m' n

/-- What a step can be. -/
inductive Moment.Step (sem : Semantics S) : Moment S → Moment S → Prop
  | goOn : Step sem (.code (.done a) (.goOn f k) w) (.code (f a) k w)
  | restore :
      Step sem (.code (.done a) (.restore before k) w) (.code (.done a) k { w with active := before })
  | leave :
      Step sem (.code (.done a) (.leave e before es slots k) w) (.turns es slots k (w.leave e before))
  | born : Step sem (.code (.done a) (.born e f k) w) (.code (f e) k w)
  | inert {op : Op S} {f : op.Reply → Program S α} {r : op.Reply} (hop : op.IsInert)
      (h : op.perform (fun _ _ => none) w = some (r, w')) :
      Step sem (.code (.step op f) k w) (.code (f r) k w')
  | write :
      Step sem (.code (.step (.write u) f) k w)
        (.turns [] (u.apply w.heap).2.2 (.goOn (fun _ => f (u.apply w.heap).1) k)
          { w with heap := (u.apply w.heap).2.1 })
  | call : Step sem (.code (.step (.call c) f) k w) (.code (sem c) (.goOn f k) w)
  | within :
      Step sem (.code (.step (.within e c) f) k w)
        (.code (sem c) (.restore w.active (.goOn f k)) { w with active := e })
  | spawn :
      Step sem (.code (.step (.spawn c) f) k w)
        (.turns [(w.newEffect c).1] [] (.born (w.newEffect c).1 f k) (w.newEffect c).2)
  | rerun : Step sem (.code (.step (.rerun e) f) k w) (.turns [e] [] (.goOn f k) w)
  | trigger :
      Step sem (.code (.step (.trigger s) f) k w)
        (.turns (w.registry.subscribersOf s) [] (.goOn f k) w)
  | drained : Step sem (.turns [] [] k w) (.code (.done ()) k w)
  | slot : Step sem (.turns [] (s :: slots) k w) (.turns (w.registry.subscribersOf s) slots k w)
  | gone (hb : w.effectBody e = none) : Step sem (.turns (e :: es) slots k w) (.turns es slots k w)
  | refused (hb : w.effectBody e = some c) (hd : w.maxDepth < w.effectDepth e + 1) :
      Step sem (.turns (e :: es) slots k w) (.turns es slots k (w.write [.event .effectTooDeep]))
  | enter (hb : w.effectBody e = some c) (hd : w.effectDepth e < w.maxDepth) :
      Step sem (.turns (e :: es) slots k w)
        (.code (sem c) (.leave e w.active es slots k) (w.enter e))

variable {sem : Semantics S} {m : Moment S}
variable {p : Program S α}

variable {op : Op S}

lemma Op.start_of_inert (hop : op.IsInert) (next : op.Reply → Program S α) (k : Pending S α)
    (w : World S) : op.start sem next k w =
      (op.perform (fun _ _ => none) w).map fun r => .code (next r.1) k r.2 := by
  cases op <;> first | rfl | exact hop.elim

lemma Op.IsInert.perform_eq (hop : op.IsInert) (call call' : Caller S) (w : World S) :
    op.perform call w = op.perform call' w := by
  cases op <;> first | rfl | exact hop.elim

lemma Moment.step_of_next (h : m.next sem = some m') : m.Step sem m' := by
  cases m with
  | code p k w =>
    cases p with
    | done a =>
      cases k with
      | nothing => cases h
      | goOn next k =>
        cases h
        exact .goOn
      | restore before k =>
        cases h
        exact .restore
      | leave e before es slots k =>
        cases h
        exact .leave
      | born e next k =>
        cases h
        exact .born
    | step op next =>
      -- the machine answers operations that run no code at once, all in the same way
      have inert : op.IsInert → (Moment.code (.step op next) k w).Step sem m' := by
        intro hop
        have hstart : op.start sem next k w = some m' := h
        rw [Op.start_of_inert hop] at hstart
        obtain ⟨⟨r, w'⟩, hr, rfl⟩ := map_eq_some_iff.mp hstart
        exact .inert hop hr
      cases op with
      | write u =>
        cases h
        exact .write
      | call c =>
        cases h
        exact .call
      | within e c =>
        cases h
        exact .within
      | spawn c =>
        cases h
        exact .spawn
      | rerun e =>
        cases h
        exact .rerun
      | trigger s =>
        cases h
        exact .trigger
      | _ => exact inert trivial
  | turns es slots k w =>
    cases es with
    | nil =>
      cases slots with
      | nil =>
        cases h
        exact .drained
      | cons s slots =>
        cases h
        exact .slot
    | cons e es =>
      rw [Moment.next] at h
      split at h
      · rename_i hb
        cases h
        exact .gone hb
      · rename_i c hb
        split at h
        · rename_i hd
          cases h
          exact .refused hb hd
        · rename_i hd
          cases h
          exact .enter hb (by omega)

lemma Moment.next_turn (hb : w.effectBody e = some c) (hd : w.effectDepth e < w.maxDepth) :
    (Moment.turns (e :: es) slots k w).next sem =
      some (.code (sem c) (.leave e w.active es slots k) (w.enter e)) := by
  have hroom : ¬ w.maxDepth < w.effectDepth e + 1 := by omega
  simp only [Moment.next, hb, if_neg hroom]

/-! ## Counting moments -/

namespace Semantics

@[simp]
lemma after_zero (sem : Semantics S) (m : Moment S) : sem.after m 0 = some m := rfl

lemma after_add (sem : Semantics S) (m : Moment S) (n n' : Nat) :
    sem.after m (n + n') = (sem.after m n).bind fun m' => sem.after m' n' := by
  induction n generalizing m with
  | zero => simp
  | succ n ih =>
    rw [Nat.succ_add, after, after]
    cases m.next sem with
    | none => rfl
    | some m1 => exact ih m1

lemma after_from (hd : sem.after m0 d = some m) (n : Nat) :
    sem.after m0 (d + n) = sem.after m n := by
  rw [after_add, hd, Option.bind_some]

lemma after_succ (sem : Semantics S) (m : Moment S) (n : Nat) :
    sem.after m (n + 1) = (sem.after m n).bind (Moment.next sem) := by
  rw [after_add]
  refine congrArg _ (funext fun m' => ?_)
  simp only [after, Option.bind_fun_some]

lemma after_next (hm : sem.after m0 n = some m)
    (hnext : m.next sem = some m') : sem.after m0 (n + 1) = some m' := by
  rw [after_succ, hm]
  exact hnext

lemma after_succ_cases (h : sem.after m (n + 1) = some m'') :
    ∃ m', sem.after m n = some m' ∧ m'.Step sem m'' := by
  rw [after_succ] at h
  obtain ⟨m', hm', hnext⟩ := bind_eq_some_iff.mp h
  exact ⟨m', hm', Moment.step_of_next hnext⟩

variable {P : Moment S → Prop}

lemma after_keeps (hstep : ∀ {m m'}, m.Step sem m' → P m → P m') (h : sem.after m n = some m')
    (hm : P m) : P m' := by
  induction n generalizing m' with
  | zero =>
    cases h
    exact hm
  | succ n ih =>
    obtain ⟨m1, h1, hlast⟩ := after_succ_cases h
    exact hstep hlast (ih h1)

section

variable (hm : sem.after m0 n = some m) (hm' : sem.after m0 (n + 1) = some m')
include hm hm'

lemma next_of_after : m.next sem = some m' := by
  rw [after_succ, hm] at hm'
  exact hm'

lemma step_of_after : m.Step sem m' := Moment.step_of_next (next_of_after hm hm')

end

lemma lt_of_after (hend : sem.after m0 n = none) (hm : sem.after m0 l = some m) : l < n := by
  by_contra hge
  obtain ⟨d, rfl⟩ := Nat.exists_eq_add_of_le (Nat.le_of_not_lt hge)
  rw [after_add, hend] at hm
  cases hm

lemma exists_after (hm : sem.after m0 n = some m) (hl : l ≤ n) :
    ∃ m', sem.after m0 l = some m' := by
  obtain ⟨d, rfl⟩ := Nat.exists_eq_add_of_le hl
  rw [after_add] at hm
  obtain ⟨m', hm', -⟩ := bind_eq_some_iff.mp hm
  exact ⟨m', hm'⟩

lemma after_stretch (hm : sem.after m0 l = some m) (hP : P m) (hstep : ∀ {j m m'}, l ≤ j → j < n →
    sem.after m0 j = some m → sem.after m0 (j + 1) = some m' → P m → P m') (hl : l ≤ n)
    (hm' : sem.after m0 n = some m') : P m' := by
  induction n, hl using Nat.le_induction generalizing m' with
  | base =>
    rw [hm] at hm'
    cases hm'
    exact hP
  | succ n hl ih =>
    obtain ⟨m1, hm1, -⟩ := after_succ_cases hm'
    refine hstep hl (Nat.lt_succ_self n) hm1 hm' (ih ?_ hm1)
    exact fun hj hjn => hstep hj (Nat.lt_succ_of_lt hjn)

def passes (sem : Semantics S) (check : Moment S → Bool) : Moment S → Nat → Bool
  | m, 0 => check m
  | m, n + 1 => check m && (m.next sem).all fun m' => sem.passes check m' n

lemma check_of_passes (h : sem.passes check m n = true) (hl : l ≤ n)
    (hm : sem.after m l = some m') : check m' = true := by
  induction n generalizing m l with
  | zero =>
    obtain rfl : l = 0 := Nat.le_zero.mp hl
    cases hm
    exact h
  | succ n ih =>
    rw [passes, Bool.and_eq_true] at h
    cases l with
    | zero =>
      cases hm
      exact h.1
    | succ l =>
      obtain ⟨m1, hnext, hrest⟩ := bind_eq_some_iff.mp hm
      have hlater := h.2
      rw [hnext] at hlater
      exact ih hlater (Nat.le_of_succ_le_succ hl) hrest

lemma check_of_passes_from (h : (sem.after m0 l).all (fun m => sem.passes check m n) = true)
    (hl : l ≤ j) (hn : j ≤ l + n) (hm : sem.after m0 j = some m) : check m = true := by
  obtain ⟨j, rfl⟩ := Nat.exists_eq_add_of_le hl
  rw [after_add] at hm
  obtain ⟨m1, hm1, hm⟩ := bind_eq_some_iff.mp hm
  rw [hm1] at h
  exact check_of_passes h (Nat.le_of_add_le_add_left hn) hm

def Leads (sem : Semantics S) (m m' : Moment S) : Prop :=
  ∃ n, sem.after m n = some m'

namespace Leads

lemma refl (m : Moment S) : sem.Leads m m := ⟨0, rfl⟩

lemma trans (h : sem.Leads m m') (h' : sem.Leads m' m'') : sem.Leads m m'' := by
  obtain ⟨n, hn⟩ := h
  obtain ⟨n', hn'⟩ := h'
  exact ⟨n + n', (after_from hn n').trans hn'⟩

lemma of_next (h : m.next sem = some m') : sem.Leads m m' :=
  ⟨1, by rw [after, h]; rfl⟩

lemma head (h : m.next sem = some m') (h' : sem.Leads m' m'') : sem.Leads m m'' :=
  (of_next h).trans h'

end Leads

end Semantics

/-! ## Runs that end -/

/-- Whatever is called, its moments lead to its result. -/
def Caller.Walked (sem : Semantics S) (call : Caller S) : Prop :=
  ∀ {c w r w'}, call c w = some (r, w') →
    ∀ k, sem.Leads (.code (sem c) k w) (.code (.done r) k w')

namespace Semantics

variable {call : Caller S}

section

variable (hcall : call.Walked sem)
include hcall

lemma leads_runEffect (h : runEffect call e w = some w') (es : List EffectId) (slots : List Slot)
    (k : Pending S Unit) : sem.Leads (.turns (e :: es) slots k w) (.turns es slots k w') := by
  rcases runEffect_cases h with ⟨hb, rfl⟩ | ⟨c, hb, hd, rfl⟩ | ⟨c, r, w1, hb, hd, hc, rfl⟩
  · refine .of_next ?_
    simp only [Moment.next, hb]
  · refine .of_next ?_
    simp only [Moment.next, hb, if_pos hd]
  · exact .head (Moment.next_turn hb hd) ((hcall hc _).trans (.of_next rfl))

lemma leads_runEffects (h : runEffects call es w = some w')
    (slots : List Slot) (k : Pending S Unit) :
    sem.Leads (.turns es slots k w) (.turns [] slots k w') := by
  induction es generalizing w with
  | nil =>
    cases h
    exact .refl _
  | cons e rest ih =>
    rw [runEffects] at h
    split at h
    · cases h
    · rename_i w1 he
      exact (leads_runEffect hcall he rest slots k).trans (ih h)

lemma leads_triggerAll (h : triggerAll call slots w = some w')
    (k : Pending S Unit) : sem.Leads (.turns [] slots k w) (.code (.done ()) k w') := by
  induction slots generalizing w with
  | nil =>
    cases h
    exact .of_next rfl
  | cons s rest ih =>
    rw [triggerAll] at h
    split at h
    · cases h
    · rename_i w1 hs
      exact .head rfl ((leads_runEffects hcall hs rest k).trans (ih h))

lemma leads_turns (h : runEffects call es w = some w')
    (k : Pending S Unit) : sem.Leads (.turns es [] k w) (.code (.done ()) k w') :=
  (leads_runEffects hcall h [] k).trans (.of_next rfl)

end

lemma runEffects_singleton (call : Caller S) (e : EffectId) (w : World S) :
    runEffects call [e] w = runEffect call e w := by
  simp only [runEffects]
  cases runEffect call e w <;> rfl

lemma leads_perform (hcall : call.Walked sem) (h : op.perform call w = some (r, w'))
    (next : op.Reply → Program S α) (k : Pending S α) :
    sem.Leads (.code (.step op next) k w) (.code (next r) k w') := by
  -- an operation that runs no code is one step; any other begins with a step, walks through what it
  -- runs, and goes on with another step
  have inert : op.IsInert → sem.Leads (.code (.step op next) k w) (.code (next r) k w') := by
    intro hop
    refine .of_next ?_
    show op.start sem next k w = _
    rw [Op.start_of_inert hop, hop.perform_eq _ call, h]
    rfl
  cases op with
  | write u =>
    obtain ⟨w1, ht, ⟨⟩⟩ := map_eq_some_iff.mp h
    exact .head rfl ((leads_triggerAll hcall ht _).trans (.of_next rfl))
  | call c => exact .head rfl ((hcall h _).trans (.of_next rfl))
  | within e c =>
    rw [Op.perform, runWithin] at h
    split at h
    · cases h
    · rename_i r1 w1 hc
      cases h
      exact .head rfl ((hcall hc _).trans (.head rfl (.of_next rfl)))
  | spawn c | rerun e =>
    obtain ⟨w1, he, ⟨⟩⟩ := map_eq_some_iff.mp h
    rw [← runEffects_singleton] at he
    exact .head rfl ((leads_turns hcall he _).trans (.of_next rfl))
  | trigger s =>
    obtain ⟨w1, ht, ⟨⟩⟩ := map_eq_some_iff.mp h
    exact .head rfl ((leads_turns hcall ht _).trans (.of_next rfl))
  | _ => exact inert trivial

lemma leads_run (hcall : call.Walked sem) (h : p.run call w = some (a, w')) (k : Pending S α) :
    sem.Leads (.code p k w) (.code (.done a) k w') := by
  induction p generalizing w with
  | done b =>
    cases h
    exact .refl _
  | step op next ih =>
    obtain ⟨r, w1, hop, hrest⟩ := Program.of_run_step h
    exact (leads_perform hcall hop next k).trans (ih r hrest)

lemma walked (sem : Semantics S) (bound : Nat) : (sem.caller bound).Walked sem := by
  induction bound with
  | zero => exact nofun
  | succ n ih => exact fun h k => leads_run ih h k

lemma leads_bind (h : p.run (sem.caller bound) w = some (a, w')) (f : α → Program S β)
    (k : Pending S β) : sem.Leads (.code (p >>= f) k w) (.code (f a) k w') := by
  induction p generalizing w with
  | done b =>
    cases h
    exact .refl _
  | step op next ih =>
    obtain ⟨r, w1, hop, hrest⟩ := Program.of_run_step h
    exact (leads_perform (sem.walked bound) hop _ k).trans (ih r hrest)

end Semantics

/-! ## Moments that come to an end -/

def Pending.finish (call : Caller S) {α : Type} : Pending S α → α → World S → Option (Moment S)
  | .nothing, a, w => some (.code (.done a) .nothing w)
  | .goOn next k, a, w => ((next a).run call w).bind fun r => k.finish call r.1 r.2
  | .restore before k, a, w => k.finish call a { w with active := before }
  | .leave e before es slots k, _, w =>
    (runEffects call es (w.leave e before)).bind fun w =>
      (triggerAll call slots w).bind fun w => k.finish call () w
  | .born e next k, _, w => ((next e).run call w).bind fun r => k.finish call r.1 r.2

def Moment.finish (call : Caller S) : Moment S → Option (Moment S)
  | .code p k w => (p.run call w).bind fun r => k.finish call r.1 r.2
  | .turns es slots k w =>
    (runEffects call es w).bind fun w =>
      (triggerAll call slots w).bind fun w => k.finish call () w

section Finish

lemma Pending.finish_goOn (next : α → Program S β) (k : Pending S β) (a : α)
    (w : World S) : (goOn next k).finish call a w = (Moment.code (next a) k w).finish call := by
  rw [Pending.finish, Moment.finish]

lemma Pending.finish_born (e : EffectId) (next : EffectId → Program S β) (k : Pending S β)
    (a : Unit) (w : World S) :
    (born e next k).finish call a w = (Moment.code (next e) k w).finish call := by
  rw [Pending.finish, Moment.finish]

lemma Pending.finish_mono (h : call.Le call') {k : Pending S α}
    (hf : k.finish call a w = some f) : k.finish call' a w = some f := by
  induction k generalizing w with
  | nothing => exact hf
  | goOn next k ih | born e next k ih =>
    obtain ⟨r, hr, hk⟩ := bind_eq_some_iff.mp hf
    exact bind_eq_some_iff.mpr ⟨r, Program.run_mono h hr, ih hk⟩
  | restore before k ih => exact ih hf
  | leave e before es slots k ih =>
    obtain ⟨w1, hes, hf⟩ := bind_eq_some_iff.mp hf
    obtain ⟨w2, hslots, hk⟩ := bind_eq_some_iff.mp hf
    exact bind_eq_some_iff.mpr ⟨w1, runEffects_mono h hes,
      bind_eq_some_iff.mpr ⟨w2, triggerAll_mono h hslots, ih hk⟩⟩

lemma Moment.finish_mono (h : call.Le call') (hf : m.finish call = some f) :
    m.finish call' = some f := by
  cases m with
  | code p k w => exact Pending.finish_mono (k := .goOn (fun _ : Unit => p) k) (a := ()) h hf
  | turns es slots k w =>
    obtain ⟨w1, hes, hf⟩ := bind_eq_some_iff.mp hf
    obtain ⟨w2, hslots, hk⟩ := bind_eq_some_iff.mp hf
    exact bind_eq_some_iff.mpr ⟨w1, runEffects_mono h hes,
      Option.bind_eq_some_iff.mpr ⟨w2, triggerAll_mono h hslots, Pending.finish_mono h hk⟩⟩

lemma Moment.finish_step (h : call.Le call') (hop : op.perform call' w = some (r, w'))
    {next : op.Reply → Program S α} {k : Pending S α}
    (hf : (Moment.code (next r) k w').finish call = some f) :
    (Moment.code (.step op next) k w).finish call' = some f := by
  rw [Moment.finish, Program.run_step, hop]
  exact Moment.finish_mono h hf

lemma Moment.finish_turns (hf : (Moment.turns es [] k w).finish call = some f) :
    ∃ w', runEffects call es w = some w' ∧ k.finish call () w' = some f :=
  bind_eq_some_iff.mp hf

lemma Moment.finish_turn (he : runEffect call e w = some w')
    (hf : (Moment.turns es slots k w').finish call = some f) :
    (Moment.turns (e :: es) slots k w).finish call = some f := by
  rw [Moment.finish, runEffects, he]
  exact hf

end Finish

/-- What the next moment comes to, this one comes to. Calls nest by one more at most. -/
lemma Moment.Step.finish (h : m.Step sem m') (hf : m'.finish (sem.caller n) = some f) :
    m.finish (sem.caller (n + 1)) = some f := by
  have hle := sem.caller_mono (Nat.le_succ n)
  cases h with
  | goOn | restore | leave | born => exact Pending.finish_mono hle hf
  | inert hop hr =>
    rw [hop.perform_eq _ (sem.caller (n + 1))] at hr
    exact Moment.finish_step hle hr hf
  | @write u _ next k w =>
    obtain ⟨w', hslots, hk⟩ := bind_eq_some_iff.mp hf
    have hop : (Op.write u).perform (sem.caller (n + 1)) w = some ((u.apply w.heap).1, w') :=
      map_eq_some_iff.mpr ⟨w', triggerAll_mono hle hslots, rfl⟩
    rw [Pending.finish_goOn] at hk
    exact Moment.finish_step hle hop hk
  | @call c _ next k w =>
    -- the code runs with the smaller bound, and what comes after it with the larger
    obtain ⟨⟨r, w'⟩, hr, hk⟩ := bind_eq_some_iff.mp hf
    have hop : (Op.call c).perform (sem.caller (n + 1)) w = some (r, w') := hr
    rw [Pending.finish_goOn] at hk
    exact Moment.finish_step hle hop hk
  | @within e c _ next k w =>
    obtain ⟨⟨r, w'⟩, hr, hk⟩ := bind_eq_some_iff.mp hf
    have hop : (Op.within e c).perform (sem.caller (n + 1)) w =
        some (r, { w' with active := w.active }) := by
      rw [Op.perform, runWithin, caller_succ, hr]
    rw [Pending.finish, Pending.finish_goOn] at hk
    exact Moment.finish_step hle hop hk
  | @spawn c _ next k w =>
    obtain ⟨w', he, hk⟩ := Moment.finish_turns hf
    rw [runEffects_singleton] at he
    have hop : (Op.spawn c).perform (sem.caller (n + 1)) w = some ((w.newEffect c).1, w') :=
      map_eq_some_iff.mpr ⟨w', runEffect_mono hle he, rfl⟩
    rw [Pending.finish_born] at hk
    exact Moment.finish_step hle hop hk
  | @rerun e _ next k w =>
    obtain ⟨w', he, hk⟩ := Moment.finish_turns hf
    rw [runEffects_singleton] at he
    have hop : (Op.rerun e).perform (sem.caller (n + 1)) w = some ((), w') :=
      map_eq_some_iff.mpr ⟨w', runEffect_mono hle he, rfl⟩
    rw [Pending.finish_goOn] at hk
    exact Moment.finish_step hle hop hk
  | @trigger s _ next k w =>
    obtain ⟨w', hs, hk⟩ := Moment.finish_turns hf
    have hop : (Op.trigger s).perform (sem.caller (n + 1)) w = some ((), w') :=
      map_eq_some_iff.mpr ⟨w', trigger_mono hle hs, rfl⟩
    rw [Pending.finish_goOn] at hk
    exact Moment.finish_step hle hop hk
  | drained => exact Moment.finish_mono (m := .turns [] [] _ _) hle hf
  | @slot s slots k w =>
    obtain ⟨w', hs, hf⟩ := bind_eq_some_iff.mp hf
    obtain ⟨w'', hslots, hk⟩ := bind_eq_some_iff.mp hf
    have ht : triggerAll (sem.caller (n + 1)) (s :: slots) w = some w'' := by
      rw [triggerAll, World.trigger, World.runEffects_mono hle hs]
      exact triggerAll_mono hle hslots
    show (triggerAll (sem.caller (n + 1)) (s :: slots) w).bind _ = _
    rw [ht]
    exact Pending.finish_mono hle hk
  | gone hb => exact Moment.finish_turn (runEffect_of_gone _ hb) (Moment.finish_mono hle hf)
  | refused hb hd =>
    exact Moment.finish_turn (runEffect_of_deep _ hb hd) (Moment.finish_mono hle hf)
  | @enter c e es slots k w hb hd =>
    obtain ⟨⟨r, w'⟩, hr, hk⟩ := bind_eq_some_iff.mp hf
    have he : runEffect (sem.caller (n + 1)) e w = some (w'.leave e w.active) := by
      rw [runEffect_of_room _ hb hd, caller_succ, hr]
      rfl
    exact Moment.finish_turn he (Moment.finish_mono (m := .turns es slots k _) hle hk)

lemma Semantics.finish_of_after (h : sem.after m n = some m')
    (hf : ∀ call, m'.finish call = some f) : m.finish (sem.caller n) = some f := by
  induction n generalizing m with
  | zero =>
    cases h
    exact hf _
  | succ n ih =>
    obtain ⟨m1, hnext, hrest⟩ := bind_eq_some_iff.mp h
    exact (Moment.step_of_next hnext).finish (ih hrest)

lemma Program.run_iff_after : (∃ bound, p.run (sem.caller bound) w = some (a, w')) ↔
      ∃ n, sem.after (.code p .nothing w) n = some (.code (.done a) .nothing w') := by
  constructor
  · rintro ⟨bound, h⟩
    exact leads_run (sem.walked bound) h .nothing
  · rintro ⟨n, h⟩
    have hf := finish_of_after h fun _ => rfl
    obtain ⟨⟨b, v⟩, hr, heq⟩ := bind_eq_some_iff.mp hf
    cases heq
    exact ⟨n, hr⟩

/-! ## What a step does to the world -/

/-- Changes of the world that the machine makes on its own. -/
inductive World.Shift : World S → World S → Prop
  | active (w : World S) (e : Option EffectId) : Shift w { w with active := e }
  | heap (w : World S) (h : Heap) : Shift w { w with heap := h }
  | newEffect (w : World S) (c : S.Code) : Shift w (w.newEffect c).2
  | refused (w : World S) : Shift w (w.write [.event .effectTooDeep])
  | enter {w : World S} {e : EffectId} {c : S.Code} (hb : w.effectBody e = some c) :
      Shift w (w.enter e)
  | leave (w : World S) (e : EffectId) (before : Option EffectId) : Shift w (w.leave e before)

lemma World.Shift.refl (w : World S) : w.Shift w := .active w w.active

/-- The operation that a program is about to perform at a moment. -/
def Moment.op? : Moment S → Option (Op S)
  | .code (.step op _) _ _ => some op
  | _ => none

/-- The slots that an operation makes the running effect depend on. -/
def Op.recorded (h : Heap) : Op S → List Slot
  | .read q => ((q.answer h).map Prod.snd).getD []
  | .track s => [s]
  | _ => []

/-- What an operation that runs no code leaves of effects and registry, if it is no request to end
an effect or to clear its dependencies: it records, and nothing more. -/
structure World.Records (op : Op S) (w w' : World S) : Prop where
  registry : w'.registry = (w.trackAll (op.recorded w.heap)).registry
  effects : w'.effects = w.effects
  active : w'.active = w.active
  state : w'.state = w.state

/-- What an operation that runs no code can be: the end of an effect, the end of its dependencies, a
change of the application's state, or something that at most records. -/
lemma Op.IsInert.cases (hop : op.IsInert) {call : Caller S} {r : op.Reply}
    (h : op.perform call w = some (r, w')) :
    (∃ e, op = .dispose e ∧ w' = w.dispose e) ∨
    (∃ e, op = .clearDependencies e ∧
      w' = { w with registry := w.registry.clearDependencies e }) ∨
    (∃ f, op = .modify f ∧ w' = { w with state := f w.state }) ∨
    ((∀ e, op ≠ .dispose e) ∧ (∀ e, op ≠ .clearDependencies e) ∧ (∀ f, op ≠ .modify f) ∧
      w.Records op w') := by
  cases op with
  | dispose e =>
    cases h
    exact .inl ⟨e, rfl, rfl⟩
  | clearDependencies e =>
    cases h
    exact .inr (.inl ⟨e, rfl, rfl⟩)
  | modify f =>
    cases h
    exact .inr (.inr (.inl ⟨f, rfl, rfl⟩))
  | write | call | within | spawn | rerun | trigger => exact hop.elim
  | read q =>
    obtain ⟨⟨a, slots⟩, ha, ⟨⟩⟩ := map_eq_some_iff.mp h
    have hslots : (Op.read q : Op S).recorded w.heap = slots := by
      rw [recorded, ha]
      rfl
    refine .inr (.inr (.inr ⟨by simp, by simp, by simp, ?_⟩))
    exact ⟨by rw [hslots], effects_trackAll w slots, active_trackAll w slots,
      state_trackAll w slots⟩
  | peek q =>
    obtain ⟨⟨a, slots⟩, ha, ⟨⟩⟩ := map_eq_some_iff.mp h
    exact .inr (.inr (.inr ⟨by simp, by simp, by simp, rfl, rfl, rfl, rfl⟩))
  | track s =>
    cases h
    refine .inr (.inr (.inr ⟨by simp, by simp, by simp, rfl, ?_, ?_, ?_⟩))
    · exact effects_track w s
    · exact active_track w s
    · exact state_trackAll w [s]
  | _ =>
    cases h
    exact .inr (.inr (.inr ⟨by simp, by simp, by simp, rfl, rfl, rfl, rfl⟩))

lemma Moment.next_of_op? (sem : Semantics S) (hop : m.op? = some op) :
    ∃ (α : Type) (next : op.Reply → Program S α) (k : Pending S α),
      m.next sem = op.start sem next k m.world := by
  cases m with
  | turns => cases hop
  | code p k w =>
    cases p with
    | done a => cases hop
    | step op next =>
      cases hop
      exact ⟨_, next, k, rfl⟩

/-- What becomes of the world in the step after a moment. -/
inductive Moment.Shift (m : Moment S) : World S → Prop
  | disposes {e : EffectId} (hop : m.op? = some (.dispose e)) : Shift m (m.world.dispose e)
  | clears {e : EffectId} (hop : m.op? = some (.clearDependencies e)) :
      Shift m { m.world with registry := m.world.registry.clearDependencies e }
  | modifies {f : S.State → S.State} (hop : m.op? = some (.modify f)) :
      Shift m { m.world with state := f m.world.state }
  | records {op : Op S} {w' : World S} (hop : m.op? = some op) (hd : ∀ e, op ≠ .dispose e)
      (hc : ∀ e, op ≠ .clearDependencies e) (hm : ∀ f, op ≠ .modify f)
      (h : m.world.Records op w') : Shift m w'
  | machine {w' : World S} (hop : ∀ op, m.op? = some op → ¬ op.IsInert) (h : m.world.Shift w') :
      Shift m w'

/-- Every step performs an operation that runs no code, or leaves the world to the machine. -/
lemma Moment.Step.shift (h : m.Step sem m') : m.Shift m'.world := by
  -- what the machine does is told apart from what was asked for: nothing was, or code is to run
  have machine : m.op? = none → m.world.Shift m'.world → m.Shift m'.world := by
    intro hnone hshift
    refine .machine (fun op hop => ?_) hshift
    rw [hnone] at hop
    cases hop
  have busy : ∀ {op}, m.op? = some op → ¬ op.IsInert → m.world.Shift m'.world →
      m.Shift m'.world := by
    intro op hop hbusy hshift
    refine .machine (fun op' hop' => ?_) hshift
    rw [hop] at hop'
    cases hop'
    exact hbusy
  cases h with
  | goOn | born | drained | slot | gone => exact machine rfl (.refl _)
  | restore => exact machine rfl (.active _ _)
  | leave => exact machine rfl (.leave _ _ _)
  | refused => exact machine rfl (.refused _)
  | enter hb => exact machine rfl (.enter hb)
  | call | rerun | trigger => exact busy rfl id (.refl _)
  | write => exact busy rfl id (.heap _ _)
  | within => exact busy rfl id (.active _ _)
  | spawn => exact busy rfl id (.newEffect _ _)
  | @inert _ w w' k op next _ hop hr =>
    have hat : (Moment.code (.step op next) k w).op? = some op := rfl
    rcases hop.cases hr with ⟨e, rfl, rfl⟩ | ⟨e, rfl, rfl⟩ | ⟨f, rfl, rfl⟩ | ⟨hd, hc, hf, hrec⟩
    · exact .disposes hat
    · exact .clears hat
    · exact .modifies hat
    · exact .records hat hd hc hf hrec

end LiveMarkup
