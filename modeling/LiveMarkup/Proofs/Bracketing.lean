import LiveMarkup.Proofs.Moments

/-!
# Runs are well bracketed

A run of an effect raises the depth of that effect, makes it the running one, and undoes both when
its body is over. Bodies may do in between whatever programs can do: change containers and so run
other effects or the same one again, run code untracked, create effects and dispose of effects, the
running one included. After each run the effect that was running runs
again and all depths are what they were; and at every moment of a run the depth of an effect is the
number of its runs on the stack.
-/

namespace LiveMarkup

open World

variable {S : Signature} {α : Type}
variable {w w' : World S} {e : EffectId} {c : S.Code}

/-! ## What is put back -/

/-- The second world has the same running effect and the same depths as the first; it may have more
effects. -/
structure World.Restored (w w' : World S) : Prop where
  active : w'.active = w.active
  depth : ∀ e, w'.effectDepth e = w.effectDepth e
  size : w.effects.size ≤ w'.effects.size

namespace World.Restored

lemma refl (w : World S) : w.Restored w := ⟨rfl, fun _ => rfl, Nat.le_refl _⟩

variable {w1 : World S}

lemma trans (h : w1.Restored w2) (h' : w2.Restored w3) : w1.Restored w3 where
  active := h'.active.trans h.active
  depth e := (h'.depth e).trans (h.depth e)
  size := Nat.le_trans h.size h'.size

lemma of_effects (ha : w'.active = w.active) (he : w'.effects = w.effects) : w.Restored w' :=
  ⟨ha, effectDepth_congr he, he ▸ Nat.le_refl _⟩

lemma dispose (w : World S) (e : EffectId) : w.Restored (w.dispose e) where
  active := by
    rw [World.dispose]
    split <;> rfl
  depth := effectDepth_dispose w e
  size := Nat.le_of_eq (size_dispose w e).symm

lemma newEffect (w : World S) (c : S.Code) : w.Restored (w.newEffect c).2 where
  active := rfl
  depth := effectDepth_newEffect w c
  size := by simp [World.newEffect]

lemma leave (hb : w.effectBody e = some c) (h : (w.enter e).Restored w1) :
    w.Restored (w1.leave e w.active) := by
  have hsize : w.effects.size ≤ w1.effects.size := by
    have hentered := h.size
    rwa [effects_enter, size_modifyDepth] at hentered
  refine ⟨rfl, effectDepth_leave (index_lt_of_effectBody hb) hsize h.depth w.active, ?_⟩
  rwa [World.leave, size_modifyDepth]

end World.Restored

lemma World.Restored.frame : Frame (fun _ : Op S => True) Restored where
  refl := .refl
  trans := .trans
  inert {call op w w' r} hi _ h := by
    cases op with
    | read q =>
      obtain ⟨⟨a, slots⟩, -, ⟨⟩⟩ := Option.map_eq_some_iff.mp h
      exact .of_effects (active_trackAll w slots) (effects_trackAll w slots)
    | peek q =>
      obtain ⟨⟨a, slots⟩, -, ⟨⟩⟩ := Option.map_eq_some_iff.mp h
      exact .refl w
    | dispose e =>
      cases h
      exact .dispose w e
    | track s =>
      cases h
      exact .of_effects (active_track w s) (effects_track w s)
    | write | call | within | spawn | rerun | trigger => exact hi.elim
    | _ =>
      cases h
      exact .of_effects rfl rfl
  heap _ _ := .of_effects rfl rfl
  newEffect := .newEffect
  within h := ⟨rfl, h.depth, h.size⟩
  refused _ := .of_effects rfl rfl
  leave := .leave

lemma Program.only_of_forall (h : ∀ op, kind op) (p : Program S α) : p.Only kind := by
  induction p with
  | done a => trivial
  | step op next ih => exact ⟨h op, ih⟩

lemma Semantics.restores (sem : Semantics S) (bound : Nat) : (sem.caller bound).Across Restored :=
  Restored.frame.caller (fun c => Program.only_of_forall (fun _ => trivial) (sem c)) bound

lemma World.effectDepth_enter (hb : w.effectBody e = some c) (e' : EffectId) :
    (w.enter e).effectDepth e' = [e].count e' + w.effectDepth e' := by
  by_cases heq : e' = e
  · subst heq
    rw [effectDepth_enter_self (index_lt_of_effectBody hb), List.count_singleton_self, Nat.add_comm]
  · rw [effectDepth_enter_of_ne w heq, List.count_singleton, if_neg (by simpa using Ne.symm heq),
      Nat.zero_add]

/-! ## Effects that are running -/

variable {sem : Semantics S} {m m' : Moment S} {before : List EffectId}

/-- The effects whose runs have begun and are not over, the latest first. -/
@[simp]
def Pending.running {α : Type} : Pending S α → List EffectId
  | .nothing => []
  | .goOn _ k => k.running
  | .restore _ k => k.running
  | .leave e _ _ _ k => e :: k.running
  | .born _ _ k => k.running

@[inherit_doc Pending.running]
def Moment.running : Moment S → List EffectId
  | .code _ k _ => k.running
  | .turns _ _ k _ => k.running

/-- The depth of every effect is the number of its runs that have begun and are not over, those of
`before` among them, which had begun before the run itself. -/
def Moment.Counted (before : List EffectId) (m : Moment S) : Prop :=
  ∀ e, m.world.effectDepth e = (m.running ++ before).count e

lemma Moment.Step.counted (h : m.Step sem m') (hm : m.Counted before) : m'.Counted before := by
  intro e
  have hdepth := hm e
  cases h with
  | goOn | born | drained | slot | gone | restore | call | rerun | trigger | within | write
  | refused =>
    exact hdepth
  | spawn =>
    exact (effectDepth_newEffect _ _ e).trans hdepth
  | @inert _ w w' _ _ _ _ hop hr =>
    exact ((Restored.frame.inert hop trivial hr).depth e).trans hdepth
  | @enter c e' es slots k w hb hd =>
    simp only [Moment.running, Moment.world, Pending.running] at hdepth ⊢
    rw [effectDepth_enter hb, hdepth, ← List.count_append]
    rfl
  | @leave _ _ e' active es slots k w =>
    simp only [Moment.running, Moment.world, Pending.running, List.cons_append] at hdepth ⊢
    have hsame : ({ w with active := active } : World S).effectDepth e = w.effectDepth e := rfl
    by_cases he : e = e'
    · subst he
      -- an effect that is listed was created, so its depth can go down
      have hlt : e.index < w.effects.size := by
        by_contra hge
        rw [effectDepth_of_size_le (Nat.le_of_not_lt hge)] at hdepth
        simp at hdepth
      rw [World.leave, World.effectDepth_modifyDepth_self _ _ (by exact hlt), hsame, hdepth,
        List.count_cons_self]
      rfl
    · rw [World.leave, World.effectDepth_modifyDepth_of_ne _ _ he, hsame, hdepth,
        List.count_cons_of_ne (Ne.symm he)]

lemma Moment.Counted.running_eq_nil (hm : m.Counted before)
    (h : ∀ e, m.world.effectDepth e = 0) : m.running = [] := by
  refine List.eq_nil_iff_forall_not_mem.mpr fun e he => ?_
  have hpos := List.count_pos_iff.mpr (List.mem_append_left before he)
  rw [← hm e, h e] at hpos
  exact Nat.lt_irrefl 0 hpos

/-! ## The limit -/

lemma Op.IsInert.maxDepth_eq {op : Op S} (hop : op.IsInert) (hlimit : ∀ k, op ≠ .setMaxDepth k)
    {call : Caller S} {r : op.Reply} (h : op.perform call w = some (r, w')) :
    w'.maxDepth = w.maxDepth := by
  cases op with
  | read q =>
    obtain ⟨⟨a, slots⟩, -, ⟨⟩⟩ := Option.map_eq_some_iff.mp h
    exact maxDepth_trackAll w slots
  | peek q =>
    obtain ⟨⟨a, slots⟩, -, ⟨⟩⟩ := Option.map_eq_some_iff.mp h
    rfl
  | dispose e =>
    cases h
    exact maxDepth_dispose w e
  | track s =>
    cases h
    exact maxDepth_track w s
  | setMaxDepth k => exact absurd rfl (hlimit k)
  | write | call | within | spawn | rerun | trigger => exact hop.elim
  | _ =>
    cases h
    rfl

/-- No effect that has begun to run is deeper than the limit. -/
def Moment.WithinLimit (m : Moment S) : Prop :=
  ∀ e ∈ m.running, m.world.effectDepth e ≤ m.world.maxDepth

lemma Moment.Step.withinLimit (h : m.Step sem m') (hlimit : ∀ k, m.op? ≠ some (.setMaxDepth k))
    (hm : m.WithinLimit) : m'.WithinLimit := by
  intro e he
  cases h with
  | goOn | born | drained | slot | gone | restore | call | rerun | trigger | within | write
  | refused => exact hm e he
  | spawn => exact (effectDepth_newEffect _ _ e).trans_le (hm e he)
  | @inert _ w w' _ _ _ _ hop hr =>
    have hdepth := (Restored.frame.inert hop trivial hr).depth e
    have hmax := hop.maxDepth_eq (fun k heq => hlimit k (congrArg some heq)) hr
    exact hdepth.trans_le ((hm e he).trans_eq hmax.symm)
  | @enter c e' es slots k w hb hd =>
    simp only [Moment.running, Moment.world, Pending.running, maxDepth_enter] at he ⊢
    -- an effect is let in only if there is room for it, and the others stay as deep as they are
    by_cases heq : e = e'
    · rw [heq, effectDepth_enter_self (index_lt_of_effectBody hb)]
      exact hd
    · rw [effectDepth_enter_of_ne w heq]
      exact hm e ((List.mem_cons.mp he).resolve_left heq)
  | @leave _ _ e' active es slots k w =>
    refine le_trans ?_ (hm e (List.mem_cons_of_mem e' he))
    exact effectDepth_leave_le w e' active e

/-! ## Altogether -/

/-- Whatever bodies do, runs are well bracketed: running an effect, triggering a slot, creating an
effect and running code untracked put back the running effect and all depths. A run passes through
the moments that lead to its result, and at every one of them, also where the run comes to no end,
the depths count the runs on the stack, and effects that run are within the limit as long as nobody
moves it. A run that the limit refuses changes neither subscriptions nor containers nor effects. -/
theorem World.runs_well_bracketed (sem : Semantics S) :
    (∀ {bound e w w'}, runEffect (sem.caller bound) e w = some w' → w.Restored w') ∧
    (∀ {bound s w w'}, trigger (sem.caller bound) s w = some w' → w.Restored w') ∧
    (∀ {bound c e w w'}, (Op.spawn c).perform (sem.caller bound) w = some (e, w') →
      w.Restored w') ∧
    (∀ {bound c r w w'}, (Op.within none c).perform (sem.caller bound) w = some (r, w') →
      w.Restored w') ∧
    (∀ {α : Type} {p : Program S α} {w : World S},
      (∀ {a w'}, (∃ bound, p.run (sem.caller bound) w = some (a, w')) ↔
        ∃ n, sem.after (.code p .nothing w) n = some (.code (.done a) .nothing w')) ∧
      ∀ {before : List EffectId} {n m}, sem.after (.code p .nothing w) n = some m →
        (∀ e, w.effectDepth e = before.count e) →
        (∀ e, m.world.effectDepth e = (m.running ++ before).count e) ∧
        ((∀ l < n, ∀ m', sem.after (.code p .nothing w) l = some m' →
            ∀ k, m'.op? ≠ some (.setMaxDepth k)) →
          ∀ e ∈ m.running, m.world.effectDepth e ≤ m.world.maxDepth)) ∧
    (∀ {bound e c} {w : World S}, w.effectBody e = some c → w.maxDepth < w.effectDepth e + 1 →
      ∃ w', runEffect (sem.caller bound) e w = some w' ∧ w'.registry = w.registry ∧
        w'.heap = w.heap ∧ w'.effects = w.effects ∧ w'.active = w.active) := by
  have hframe := Restored.frame (S := S)
  refine ⟨?_, ?_, ?_, ?_, ?_, ?_⟩
  · exact fun h => hframe.runEffect (sem.restores _) h
  · exact fun h => hframe.runEffects (sem.restores _) h
  · exact fun h => hframe.perform (sem.restores _) trivial h
  · exact fun h => hframe.perform (sem.restores _) trivial h
  · refine fun {α p w} => ⟨Program.run_iff_after, fun {before n m} hm hbefore => ⟨?_, ?_⟩⟩
    · exact Semantics.after_keeps (P := Moment.Counted before) (·.counted) hm hbefore
    · intro hlimit
      refine Semantics.after_stretch (P := Moment.WithinLimit) (n := n) rfl ?_ ?_ n.zero_le hm
      · exact fun e he => absurd he List.not_mem_nil
      intro j m₁ m₂ _ hj hm₁ hm₂ hwithin
      exact (Semantics.step_of_after hm₁ hm₂).withinLimit (hlimit j hj m₁ hm₁) hwithin
  · intro bound e c w hb hdeep
    exact ⟨_, runEffect_of_deep _ hb hdeep, rfl, rfl, rfl, rfl⟩

namespace Blinker

/-- The blinking effect, which here may run once inside itself. -/
def shallow : World Blinker :=
  { world with maxDepth := 2 }

def rerun : Program Blinker Unit :=
  .step (.rerun ⟨0⟩) .done

lemma effectDepth_shallow (e : EffectId) : shallow.effectDepth e = 0 := by
  obtain ⟨i⟩ := e
  cases i with
  | zero => rfl
  | succ i => exact effectDepth_of_size_le (Nat.le_add_left 1 i)

def keepsLimit : Op Blinker → Bool
  | .setMaxDepth _ => false
  | _ => true

/-- Six steps on, the effect runs inside itself: both runs are counted, and a third is refused. -/
theorem runs_well_bracketed_blink :
    (∃ w', World.runEffect (blink.caller 2) ⟨0⟩ shallow = some w' ∧ shallow.Restored w') ∧
    ∃ m, blink.after (.code rerun .nothing shallow) 6 = some m ∧ m.running = [⟨0⟩, ⟨0⟩] ∧
      m.world.effectDepth ⟨0⟩ = 2 ∧ m.world.effectDepth ⟨0⟩ ≤ m.world.maxDepth ∧
      ∃ w', World.runEffect (blink.caller 0) ⟨0⟩ m.world = some w' ∧
        w'.registry = m.world.registry ∧ w'.heap = m.world.heap ∧ w'.effects = m.world.effects ∧
        w'.active = m.world.active := by
  obtain ⟨hrun, -, -, -, hmoments, hrefused⟩ := runs_well_bracketed blink
  have hreturns : (runEffect (blink.caller 2) ⟨0⟩ shallow).isSome = true := by decide
  obtain ⟨w', hw'⟩ := Option.isSome_iff_exists.mp hreturns
  refine ⟨⟨w', hw', hrun hw'⟩, ?_⟩
  have hsix : (blink.after (.code rerun .nothing shallow) 6).any
      (fun m => decide (m.running = [⟨0⟩, ⟨0⟩] ∧ (m.world.effectBody ⟨0⟩).isSome ∧
        m.world.maxDepth = 2)) = true := by decide
  obtain ⟨m, hm, hcheck⟩ := (Option.any_eq_true _ _).mp hsix
  obtain ⟨hrunning, hbody, hmax⟩ := of_decide_eq_true hcheck
  have hrest : ∀ e, shallow.effectDepth e = ([] : List EffectId).count e := effectDepth_shallow
  obtain ⟨hcount, hlimit⟩ := hmoments.2 hm hrest
  have hdepth : m.world.effectDepth ⟨0⟩ = 2 := by
    rw [hcount, hrunning]
    rfl
  have hkeeps : blink.passes (·.op?.all keepsLimit) (.code rerun .nothing shallow) 6 = true := by
    decide
  have hwithin := hlimit (fun l hl m' hm' k hop => by
    have hcheck := Semantics.check_of_passes hkeeps hl.le hm'
    rw [hop] at hcheck
    cases hcheck) ⟨0⟩ (hrunning ▸ List.mem_cons_self)
  obtain ⟨c, hc⟩ := Option.isSome_iff_exists.mp hbody
  exact ⟨m, hm, hrunning, hdepth, hwithin, hrefused hc (by omega)⟩

end Blinker

end LiveMarkup
