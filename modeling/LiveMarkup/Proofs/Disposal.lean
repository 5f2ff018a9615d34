import LiveMarkup.Proofs.Bracketing
import LiveMarkup.Proofs.Indexes

/-!
# What an ended effect leaves behind

Ending an effect takes it out of the registry: nobody lists it as a subscriber, and the reverse
index has no entry for it. But an effect that ends itself goes on running until its body returns.
What it reads from then on puts it back, and it is not taken out again: it never runs, so its
entries are never renewed, and ending it once more does nothing.

The main result says that this is the only way. At any moment of any run, an effect that has ended
is listed exactly when a read was recorded for it after it had ended, and nobody has cleared its
dependencies by hand since. What is left behind is harmless all the same: when the turn of an effect
comes that has ended, it is passed over.
-/

namespace LiveMarkup

open List World Assoc Registry Pending Program

/-! ## Who is in the registry -/

namespace Registry

/-- An effect occurs in the registry, as a subscriber or in the reverse index. -/
def Mentions (r : Registry) (e : EffectId) : Prop :=
  (∃ p ∈ r.subscribers, e ∈ p.2) ∨ e ∈ keys r.dependencies

variable {r : Registry}

lemma mem_keys_of_mem_dependenciesOf (h : s ∈ r.dependenciesOf e) : e ∈ keys r.dependencies :=
  mem_keys_of_mem (mem_of_mem_get h)

lemma Consistent.mentions_iff (h : r.Consistent) : r.Mentions e ↔ e ∈ keys r.dependencies := by
  refine ⟨?_, .inr⟩
  rintro (⟨p, hp, he⟩ | hkey)
  · have hsub : e ∈ r.subscribersOf p.1 := by
      rw [subscribersOf, get_of_mem h.slots hp]
      exact he
    exact mem_keys_of_mem_dependenciesOf ((h.agree e p.1).mp hsub)
  · exact hkey

lemma Consistent.mem_keys_track (h : r.Consistent) (s : Slot) :
    e' ∈ keys (r.track e s).dependencies ↔ e' ∈ keys r.dependencies ∨ e' = e := by
  rw [Registry.track]
  split
  · rename_i hin
    -- whoever is subscribed already has an entry
    have hkey : e ∈ keys r.dependencies := mem_keys_of_mem_dependenciesOf ((h.agree e s).mp hin)
    refine ⟨.inl, ?_⟩
    rintro (hold | rfl)
    · exact hold
    · exact hkey
  · show e' ∈ keys (push r.dependencies e s) ↔ _
    rw [keys_push]
    split
    · rename_i hkey
      refine ⟨.inl, ?_⟩
      rintro (hold | rfl)
      · exact hold
      · exact hkey
    · rw [mem_append, mem_singleton]

lemma mem_keys_clearDependencies : e' ∈ keys (r.clearDependencies e).dependencies ↔
      e' ∈ keys r.dependencies ∧ e' ≠ e := by
  simp only [clearDependencies, Assoc.keys, mem_map, mem_filter, decide_eq_true_eq]
  constructor
  · rintro ⟨p, ⟨hp, hne⟩, rfl⟩
    exact ⟨⟨p, hp, rfl⟩, hne⟩
  · rintro ⟨⟨p, hp, rfl⟩, hne⟩
    exact ⟨p, ⟨hp, hne⟩, rfl⟩

end Registry

namespace World

variable {w : World S}

def Ended (w : World S) (e : EffectId) : Prop :=
  e.index < w.effects.size ∧ w.effectBody e = none

def Lists (w : World S) (e : EffectId) : Prop :=
  e ∈ keys w.registry.dependencies

lemma lists_trackAll (h : w.registry.Consistent) (slots : List Slot) :
    (w.trackAll slots).registry.Consistent ∧
      ((w.trackAll slots).Lists e ↔ w.Lists e ∨ w.active = some e ∧ slots ≠ []) := by
  induction slots generalizing w with
  | nil => exact ⟨h, by simp [trackAll]⟩
  | cons s rest ih =>
    have hstep : w.trackAll (s :: rest) = (w.track s).trackAll rest := rfl
    -- without a running effect nothing is recorded, now or later: tracking keeps who is running
    cases ha : w.active with
    | none =>
      have hs : w.track s = w := by rw [track, ha]
      obtain ⟨hc, hl⟩ := ih h
      rw [hstep, hs]
      exact ⟨hc, by simpa [ha] using hl⟩
    | some a =>
      have hs : w.track s = { w with registry := w.registry.track a s } := by rw [track, ha]
      have hcons : (w.track s).registry.Consistent := by
        rw [hs]
        exact h.track a s
      have hlists : (w.track s).Lists e ↔ w.Lists e ∨ e = a := by
        rw [hs]
        exact h.mem_keys_track s
      obtain ⟨hc, hl⟩ := ih hcons
      rw [hstep]
      refine ⟨hc, ?_⟩
      rw [hl, hlists, active_track, ha]
      simp only [Option.some.injEq, ne_eq, reduceCtorEq, not_false_eq_true, and_true]
      tauto

end World

/-! ## One step -/

/-- At a moment a read is about to be recorded for an effect. -/
def Moment.RecordsFor (m : Moment S) (e : EffectId) : Prop :=
  ∃ op, m.op? = some op ∧ op.recorded m.world.heap ≠ [] ∧ m.world.active = some e

/-- At a moment the dependencies of an effect are about to be cleared by hand. -/
def Moment.Clears (m : Moment S) (e : EffectId) : Prop :=
  m.op? = some (.clearDependencies e)

namespace Moment

variable {m : Moment S}

lemma recordsFor_iff (hop : m.op? = some op) :
    m.RecordsFor e ↔ m.world.active = some e ∧ op.recorded m.world.heap ≠ [] := by
  constructor
  · rintro ⟨op', hop', hrec, hactive⟩
    rw [hop] at hop'
    cases hop'
    exact ⟨hactive, hrec⟩
  · rintro ⟨hactive, hrec⟩
    exact ⟨op, hop, hrec, hactive⟩

lemma not_clears_of_op (hop : m.op? = some op) (h : op ≠ .clearDependencies e) : ¬ m.Clears e := by
  intro hc
  rw [Clears, hop] at hc
  exact h (Option.some.inj hc)

namespace Step

section

variable (h : m.Step sem m')
include h

lemma consistent (hm : m.world.registry.Consistent) : m'.world.registry.Consistent := by
  have hshift := h.shift
  generalize m'.world = w' at hshift ⊢
  cases hshift with
  | disposes =>
    rw [dispose]
    split
    · exact hm
    · exact hm.clearDependencies _
  | clears => exact hm.clearDependencies _
  | modifies => exact hm
  | records _ _ _ _ h =>
    rw [h.registry]
    exact (lists_trackAll (e := ⟨0⟩) hm _).1
  | machine _ h =>
    generalize m.world = w at hm h
    cases h with
    | enter hb =>
      rw [registry_enter]
      exact hm.clearDependencies _
    | _ => exact hm

/-- A step ends an effect only by disposing of it, and none brings one back. -/
lemma ended_iff_or_dispose : (m'.world.Ended e ↔ m.world.Ended e) ∨
    m.op? = some (.dispose e) ∧ m'.world = m.world.dispose e := by
  have hshift := h.shift
  generalize m'.world = w' at hshift ⊢
  cases hshift with
  | @disposes e' hop =>
    by_cases he : e = e'
    · subst he
      exact .inr ⟨hop, rfl⟩
    · exact .inl (by rw [Ended, Ended, size_dispose, effectBody_dispose, if_neg he])
  | clears | modifies => exact .inl .rfl
  | records _ _ _ _ h => exact .inl (by rw [Ended, Ended, h.effects, effectBody_congr h.effects])
  | machine _ h =>
    refine .inl ?_
    generalize m.world = w at h ⊢
    cases h with
    | active | heap | refused => rfl
    | newEffect c =>
      have hsize : (w.newEffect c).2.effects.size = w.effects.size + 1 := by
        simp [newEffect]
      rw [Ended, Ended, effectBody_newEffect, hsize]
      split
      -- the effect that has just been created has a body
      · exact iff_of_false (by simp) (by omega)
      · exact and_congr_left' (by omega)
    | enter hb => rw [Ended, Ended, effectBody_enter, effects_enter, size_modifyDepth]
    | leave e' before =>
      rw [World.Ended, World.effectBody_leave, World.leave, World.size_modifyDepth]
      rfl

lemma ended (hm : m.world.Ended e) : m'.world.Ended e := by
  rcases h.ended_iff_or_dispose with hiff | ⟨-, hw⟩
  · exact hiff.mpr hm
  · rw [hw, Ended, size_dispose, effectBody_dispose, if_pos rfl]
    exact ⟨hm.1, rfl⟩

lemma not_lists_of_dispose (hm : ¬ m.world.Ended e) (hm' : m'.world.Ended e) :
    ¬ m'.world.Lists e := by
  obtain ⟨-, hw⟩ := h.ended_iff_or_dispose.resolve_left fun hiff => hm (hiff.mp hm')
  rw [hw] at hm' ⊢
  -- there was something to end, or the effect would have ended before
  cases hb : m.world.effectBody e with
  | none =>
    rw [Ended, size_dispose] at hm'
    exact absurd ⟨hm'.1, hb⟩ hm
  | some c =>
    rw [dispose, hb]
    exact fun hlists => (mem_keys_clearDependencies.mp hlists).2 rfl

/-- One step of an effect that has ended: it is listed afterwards if a read is recorded for it, or
if it was listed and is not cleared by hand. -/
lemma lists_iff (hm : m.world.registry.Consistent) (he : m.world.Ended e) :
    m'.world.Lists e ↔ m.RecordsFor e ∨ m.world.Lists e ∧ ¬ m.Clears e := by
  have hshift := h.shift
  generalize m'.world = w' at hshift ⊢
  cases hshift with
  | @disposes e' hop =>
    have hrec : ¬ m.RecordsFor e := fun hr => ((recordsFor_iff hop).mp hr).2 rfl
    have hclear : ¬ m.Clears e := not_clears_of_op hop (by simp)
    have hlists : (m.world.dispose e').Lists e ↔ m.world.Lists e := by
      rw [dispose]
      split
      · rfl
      · rename_i c hb
        -- somebody else ends
        have hne : e ≠ e' := by
          rintro rfl
          rw [he.2] at hb
          cases hb
        exact mem_keys_clearDependencies.trans (and_iff_left hne)
    rw [hlists]
    tauto
  | @clears e' hop =>
    have hrec : ¬ m.RecordsFor e := fun hr => ((recordsFor_iff hop).mp hr).2 rfl
    have hclears : m.Clears e ↔ e = e' := by
      rw [Clears, hop]
      simp only [Option.some.injEq, Op.clearDependencies.injEq]
      exact eq_comm
    have hlists : ({ m.world with registry := m.world.registry.clearDependencies e' } :
        World S).Lists e ↔ m.world.Lists e ∧ e ≠ e' := mem_keys_clearDependencies
    rw [hlists, hclears]
    tauto
  | modifies hop =>
    have hrec : ¬ m.RecordsFor e := fun hr => ((recordsFor_iff hop).mp hr).2 rfl
    have hclear : ¬ m.Clears e := not_clears_of_op hop (by simp)
    tauto
  | @records op w' hop hd hc hf h =>
    have hclear : ¬ m.Clears e := not_clears_of_op hop (hc e)
    have hlists : w'.Lists e ↔ (m.world.trackAll (op.recorded m.world.heap)).Lists e := by
      rw [World.Lists, World.Lists, h.registry]
    rw [hlists, (lists_trackAll hm _).2, recordsFor_iff hop]
    tauto
  | machine hbusy h =>
    have hrec : ¬ m.RecordsFor e := by
      rintro ⟨op, hop, hrec, -⟩
      have hb := hbusy op hop
      cases op <;> first | exact hrec rfl | exact hb trivial
    have hclear : ¬ m.Clears e := fun hc => hbusy _ hc trivial
    have hlists : w'.Lists e ↔ m.world.Lists e := by
      generalize m.world = w at h he
      cases h with
      | @enter e' c hb =>
        have hne : e ≠ e' := by
          rintro rfl
          rw [he.2] at hb
          cases hb
        rw [World.Lists, registry_enter]
        exact mem_keys_clearDependencies.trans (and_iff_left hne)
      | _ => rfl
    rw [hlists]
    tauto

end

end Step

end Moment

/-! ## A whole run -/

/-- In the first `n` steps of a run a read was recorded for an effect that had ended, and its
dependencies were not cleared by hand afterwards. -/
def Semantics.ReadsLate (sem : Semantics S) (start : Moment S) (n : Nat) (e : EffectId) : Prop :=
  ∃ l m, l < n ∧ sem.after start l = some m ∧ m.world.Ended e ∧ m.RecordsFor e ∧
    ∀ l' m', l < l' → l' < n → sem.after start l' = some m' → ¬ m'.Clears e

namespace Semantics

variable {sem : Semantics S}

lemma readsLate_succ (h : sem.after start n = some m) : sem.ReadsLate start (n + 1) e ↔
      (m.world.Ended e ∧ m.RecordsFor e) ∨ sem.ReadsLate start n e ∧ ¬ m.Clears e := by
  constructor
  · rintro ⟨l, m1, hl, hm1, hended, hrec, hkept⟩
    -- the late read is the one of this step, or there was one before that is not cleared by it
    by_cases hln : l = n
    · subst hln
      rw [h] at hm1
      cases hm1
      exact .inl ⟨hended, hrec⟩
    · have hlt : l < n := by omega
      refine .inr ⟨⟨l, m1, hlt, hm1, hended, hrec, ?_⟩, hkept n m hlt (Nat.lt_succ_self n) h⟩
      exact fun l' m' hll' hl'n => hkept l' m' hll' (by omega)
  · rintro (⟨hended, hrec⟩ | ⟨⟨l, m1, hl, hm1, hended, hrec, hkept⟩, hclear⟩)
    · refine ⟨n, m, Nat.lt_succ_self n, h, hended, hrec, ?_⟩
      intro l' m' hnl' hl'n
      omega
    · refine ⟨l, m1, by omega, hm1, hended, hrec, ?_⟩
      intro l' m' hll' hl'n hm'
      by_cases hl' : l' = n
      · subst hl'
        rw [h] at hm'
        cases hm'
        exact hclear
      · exact hkept l' m' hll' (by omega) hm'

lemma ReadsLate.ended (hlate : sem.ReadsLate start n e) (h : sem.after start n = some m) :
    m.world.Ended e := by
  obtain ⟨l, m1, hl, hm1, hended, -, -⟩ := hlate
  obtain ⟨d, rfl⟩ := Nat.exists_eq_add_of_lt hl
  rw [Nat.add_assoc, after_add, hm1] at h
  exact after_keeps (P := fun m => m.world.Ended e) (fun hs he => hs.ended he) h hended

lemma consistent_after (hstart : start.world.registry.Consistent)
    (h : sem.after start n = some m) : m.world.registry.Consistent :=
  after_keeps (P := fun m => m.world.registry.Consistent) (fun hs hc => hs.consistent hc) h hstart

/-- From a moment at which nobody is listed, those who have ended are listed as far as reads were
recorded for them late. -/
lemma lists_iff_readsLate (hstart : start.world.registry = .empty)
    (h : sem.after start n = some m) (he : m.world.Ended e) :
    m.world.Lists e ↔ sem.ReadsLate start n e := by
  have hcons : start.world.registry.Consistent := hstart ▸ .empty
  induction n generalizing m with
  | zero =>
    cases h
    have hnot : ¬ start.world.Lists e := by
      rw [World.Lists, hstart]
      exact not_mem_nil
    exact ⟨fun hl => absurd hl hnot, fun ⟨l, _, hl, _⟩ => absurd hl (Nat.not_lt_zero l)⟩
  | succ n ih =>
    obtain ⟨m1, hm1, hstep⟩ := after_succ_cases h
    rw [readsLate_succ hm1]
    by_cases he1 : m1.world.Ended e
    · have hbefore : m1.world.Lists e ↔ sem.ReadsLate start n e := ih hm1 he1
      rw [hstep.lists_iff (consistent_after hcons hm1) he1, hbefore]
      tauto
    · -- the effect ends in this step, so all reads before it were in time
      have hnot := hstep.not_lists_of_dispose he1 he
      have hlate : ¬ sem.ReadsLate start n e := fun hlate => he1 (hlate.ended hm1)
      tauto

/-- Ending an effect leaves nothing behind, unless the effect goes on reading: at any moment of any
run that starts with an empty registry, an effect that has ended occurs in the registry exactly when
a read was recorded for it after its end, and its dependencies were not cleared by hand since. -/
theorem ended_effect_listed_iff_read_late (sem : Semantics S) {α : Type} (p : Program S α)
    (s : S.State) {n : Nat} {m : Moment S}
    (h : sem.after (.code p .nothing { state := s }) n = some m) {e : EffectId}
    (he : m.world.Ended e) :
    m.world.registry.Mentions e ↔ sem.ReadsLate (.code p .nothing { state := s }) n e := by
  have hstart : (Moment.code p .nothing { state := s }).world.registry.Consistent := .empty
  have hcons : m.world.registry.Consistent := consistent_after hstart h
  rw [hcons.mentions_iff]
  exact lists_iff_readsLate rfl h he

end Semantics

/-! ## Who begins to run -/

def World.isLive (w : World S) (e : EffectId) : Bool :=
  (w.effectBody e).isSome

/-- The effect that begins to run in the step after a moment. -/
def Moment.begins : Moment S → List EffectId
  | .turns (e :: _) _ _ w => if w.isLive e ∧ w.effectDepth e < w.maxDepth then [e] else []
  | _ => []

lemma Moment.next_of_ended (sem : Semantics S) (hb : w.effectBody e = none) :
    (Moment.turns (e :: es) slots k w).next sem = some (.turns es slots k w) := by
  simp only [Moment.next, hb]

lemma Moment.not_mem_begins {m : Moment S} (hb : m.world.effectBody e = none) : e ∉ m.begins := by
  intro h
  cases m with
  | code p k w => cases h
  | turns es slots k w =>
    cases es with
    | nil => cases h
    | cons e' es =>
      rw [begins] at h
      split at h
      · rename_i hlive
        obtain rfl := mem_singleton.mp h
        have hsome : (w.effectBody e).isSome = true := hlive.1
        rw [show w.effectBody e = none from hb] at hsome
        cases hsome
      · cases h

lemma Moment.Step.count_running_le {m m' : Moment S} (h : m.Step sem m') (e : EffectId) :
    m'.running.count e ≤ m.running.count e + m.begins.count e := by
  cases h with
  | leave =>
    exact Nat.le_add_right_of_le (count_le_count_cons ..)
  | @enter c e' es slots k w hb hd =>
    have hbegins : (Moment.turns (e' :: es) slots k w).begins = [e'] :=
      if_pos ⟨by rw [isLive, hb]; rfl, hd⟩
    rw [hbegins, running, running, Pending.running, count_cons, count_singleton]
  | _ =>
    exact Nat.le_add_right _ _

/-- **An effect that has been disposed of never begins to run again.** Whenever an effect is
disposed of, in whatever program and at whatever depth, be it running itself or waiting for its turn
on a list that was taken before: the request is carried out, and from then on no step begins a run
of the effect, so there are never more of its runs under way than there were; and whenever the turn
comes to it, it is passed over and the world stays as it is. -/
theorem Semantics.disposed_never_begins_again (sem : Semantics S) {α : Type} (p : Program S α)
    (x : S.State) {n : Nat} {m : Moment S}
    (hm : sem.after (.code p .nothing { state := x }) n = some m) {e : EffectId}
    (he : e.index < m.world.effects.size) (hop : m.op? = some (.dispose e)) :
    (sem.after (.code p .nothing { state := x }) (n + 1)).isSome ∧
    ∀ l m', n < l → sem.after (.code p .nothing { state := x }) l = some m' →
      e ∉ m'.begins ∧ m'.running.count e ≤ m.running.count e ∧
      ∀ es slots k w, m' = .turns (e :: es) slots k w →
        m'.next sem = some (.turns es slots k w) := by
  obtain ⟨m₁, hnext, hended, hrunning⟩ : ∃ m₁, m.next sem = some m₁ ∧ m₁.world.Ended e ∧
      m₁.running = m.running := by
    cases m with
    | turns es slots k w => cases hop
    | code q k w =>
      cases q with
      | done a => cases hop
      | step op next =>
        cases hop
        refine ⟨.code (next ()) k (w.dispose e), rfl, ⟨?_, ?_⟩, rfl⟩
        · rw [Moment.world, size_dispose]
          exact he
        · rw [Moment.world, effectBody_dispose, if_pos rfl]
  have hm₁ := after_next hm hnext
  refine ⟨by rw [hm₁]; rfl, fun l m' hl hm' => ?_⟩
  -- from the next moment on the effect has ended, and its runs become fewer
  have hlater : m'.world.Ended e ∧ m'.running.count e ≤ m.running.count e := by
    refine after_stretch (P := fun m' => m'.world.Ended e ∧ m'.running.count e ≤ m.running.count e)
      hm₁ ⟨hended, by rw [hrunning]⟩ ?_ hl hm'
    intro j m₂ m₃ _ _ hm₂ hm₃ hP
    have hstep := step_of_after hm₂ hm₃
    have hnone := count_eq_zero.mpr (Moment.not_mem_begins hP.1.2)
    have hle := hstep.count_running_le e
    exact ⟨hstep.ended hP.1, by omega⟩
  refine ⟨Moment.not_mem_begins hlater.1.2, hlater.2, ?_⟩
  rintro es slots k w rfl
  exact Moment.next_of_ended sem hlater.1.2

/-! ## An effect that ends itself and reads on -/

def Quitter : Signature where
  Code := Unit
  Reply _ := Unit
  State := Unit

namespace Quitter

/-- Ends the first effect once it is told to, and reads on in any case. -/
def quit : Semantics Quitter := fun _ => do
  let off ← read (.property ⟨0⟩ "off")
  if off.any (·.isTruthy) then perform (.dispose ⟨0⟩)
  let _ ← read (.property ⟨0⟩ "text")
  return ()

/-- An effect is created, and told to end itself. -/
def story : Program Quitter Unit := do
  let o ← newObject .empty
  let _ ← perform (S := Quitter) (.spawn ())
  write (.set o "off" (.bool true))

def start : Moment Quitter :=
  .code story .nothing { state := () }

/-- The effect has ended, and after the last step of the story it is listed: it read the text when
it had ended already. -/
theorem ended_effect_listed_iff_read_late_story :
    ∃ m, quit.after start 18 = some m ∧ m.next quit = none ∧ m.world.Ended ⟨0⟩ ∧
      m.world.registry.Mentions ⟨0⟩ ∧ quit.ReadsLate start 18 ⟨0⟩ := by
  have hend : ((quit.after start 18).any fun m =>
      (m.next quit).isNone && decide (0 < m.world.effects.size) &&
        (m.world.effectBody ⟨0⟩).isNone &&
        decide (⟨0⟩ ∈ Assoc.keys m.world.registry.dependencies)) = true := by
    decide +kernel
  obtain ⟨m, hm, hchecks⟩ := (Option.any_eq_true _ _).mp hend
  simp only [Bool.and_eq_true, Option.isNone_iff_eq_none, decide_eq_true_eq] at hchecks
  obtain ⟨⟨⟨hover, hsize⟩, hbody⟩, hkey⟩ := hchecks
  have hended : m.world.Ended ⟨0⟩ := ⟨hsize, hbody⟩
  have hmention : m.world.registry.Mentions ⟨0⟩ := .inr hkey
  exact ⟨m, hm, hover, hended, hmention,
    (quit.ended_effect_listed_iff_read_late story () hm hended).mp hmention⟩

/-- The text is written to when the effect has ended. -/
def aftermath : Program Quitter Unit := do
  story
  write (.set ⟨0⟩ "text" (.text "a"))

def disposesFirst (m : Moment Quitter) : Bool :=
  match m.op? with
  | some (.dispose e) => decide (e = ⟨0⟩)
  | _ => false

def firstsTurn : Moment Quitter → Bool
  | .turns [e] _ _ _ => decide (e = ⟨0⟩)
  | _ => false

/-- The effect is disposed of while it runs, and puts itself back on the list of the text. When the
text is written to, the turn comes to it, and it does not begin to run. -/
theorem disposed_never_begins_again_aftermath :
    ∃ m slots k w, quit.after (.code aftermath .nothing { state := () }) 12 = some m ∧
      m.op? = some (.dispose ⟨0⟩) ∧ m.running = [⟨0⟩] ∧
      quit.after (.code aftermath .nothing { state := () }) 20 = some (.turns [⟨0⟩] slots k w) ∧
      quit.after (.code aftermath .nothing { state := () }) 21 = some (.turns [] slots k w) := by
  have hdisposes : ((quit.after (.code aftermath .nothing { state := () }) 12).any fun m =>
      disposesFirst m && decide (m.running = [⟨0⟩]) && decide (0 < m.world.effects.size)) =
        true := by
    decide +kernel
  have hturn : ((quit.after (.code aftermath .nothing { state := () }) 20).any firstsTurn) =
      true := by
    decide +kernel
  obtain ⟨m, hm, hchecks⟩ := (Option.any_eq_true _ _).mp hdisposes
  obtain ⟨m', hm', hfirst⟩ := (Option.any_eq_true _ _).mp hturn
  simp only [Bool.and_eq_true, decide_eq_true_eq] at hchecks
  obtain ⟨⟨hop, hrunning⟩, hsize⟩ := hchecks
  rw [disposesFirst] at hop
  rw [firstsTurn.eq_def] at hfirst
  split at hop
  · rename_i e heq
    obtain rfl := of_decide_eq_true hop
    split at hfirst
    · rename_i e slots k w
      obtain rfl := of_decide_eq_true hfirst
      have hnext := ((quit.disposed_never_begins_again aftermath () hm hsize heq).2 20 _
        (by decide) hm').2.2 _ _ _ _ rfl
      exact ⟨m, slots, k, w, hm, heq, hrunning, hm', Semantics.after_next hm' hnext⟩
    · cases hfirst
  · cases hop

/-- When the story is over and no effect is running, an effect that has ended is still listed as a
subscriber. -/
theorem ended_effect_still_subscribed :
    ∃ w, story.exec quit 2 { state := () } = some ((), w) ∧ (∀ e, w.effectDepth e = 0) ∧
      w.Ended ⟨0⟩ ∧ ⟨0⟩ ∈ w.registry.subscribersOf (.property ⟨0⟩ "text") := by
  have hend : ((story.exec quit 2 { state := () }).any fun r =>
      decide (r.2.effects.size = 1) && decide (r.2.effectDepth ⟨0⟩ = 0) &&
        (r.2.effectBody ⟨0⟩).isNone &&
        decide (⟨0⟩ ∈ r.2.registry.subscribersOf (.property ⟨0⟩ "text"))) = true := by
    decide +kernel
  obtain ⟨⟨_, w⟩, hw, hchecks⟩ := (Option.any_eq_true _ _).mp hend
  simp only [Bool.and_eq_true, Option.isNone_iff_eq_none, decide_eq_true_eq] at hchecks
  obtain ⟨⟨⟨hsize, hdepth⟩, hbody⟩, hsub⟩ := hchecks
  refine ⟨w, hw, ?_, ⟨by rw [hsize]; exact Nat.zero_lt_one, hbody⟩, hsub⟩
  rintro ⟨i⟩
  cases i with
  | zero => exact hdepth
  | succ i => exact effectDepth_of_size_le (by rw [hsize]; exact Nat.le_add_left 1 i)

end Quitter

end LiveMarkup
