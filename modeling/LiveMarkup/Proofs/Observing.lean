import LiveMarkup.Proofs.Disposal

/-!
# What an effect depends on

A body that only looks writes nothing and ends nothing: it asks, it runs code untracked, and it may
create further effects that only look. Every run drops the old dependencies of the effect, and every
read adds to those of whichever effect is the running one, which untracked code and nested effects
replace for a while.

`Program.ownReads` goes through a run and collects what the program reads for itself, with what the
code reads that it calls, and without what is read untracked or by effects that it creates. The main
result: after a run the dependencies of the effect are these reads, each once and in the order in
which they came first, and those of the effects that did not run are what they were.
-/

namespace LiveMarkup

open List Option Slot

variable {S : Signature} {α : Type} {sem : Semantics S} {asks : Query → Prop} {creates : Prop}

/-! ## Bodies that only look -/

/-- Operations that change neither containers nor effects; new containers count as `creates`. -/
def Op.Looks (asks : Query → Prop) (creates : Prop) : Op S → Prop
  | .read q | .peek q => asks q
  | .newObject _ | .newList _ | .newHost _ => creates
  | .write _ | .call _ | .within _ _ | .spawn _ | .rerun _ | .trigger _ => False
  | .dispose _ | .clearDependencies _ | .setMaxDepth _ => False
  | _ => True

/-- A program only looks: it asks such questions, calls code and runs code untracked that only
looks, and, if that is allowed, creates containers, and effects that only look. -/
inductive Program.Observes (sem : Semantics S) (asks : Query → Prop) (creates : Prop) :
    {α : Type} → Program S α → Prop
  | done {α : Type} (a : α) : Observes sem asks creates (done a)
  | look {α : Type} {op : Op S} {next : op.Reply → Program S α} (looks : op.Looks asks creates)
      (rest : ∀ r, Observes sem asks creates (next r)) : Observes sem asks creates (step op next)
  | call {α : Type} {c : S.Code} {next : S.Reply c → Program S α}
      (code : Observes sem asks creates (sem c))
      (rest : ∀ r, Observes sem asks creates (next r)) :
      Observes sem asks creates (step (.call c) next)
  | untracked {α : Type} {c : S.Code} {next : S.Reply c → Program S α}
      (code : Observes sem asks creates (sem c))
      (rest : ∀ r, Observes sem asks creates (next r)) :
      Observes sem asks creates (step (.within none c) next)
  | spawn {α : Type} {c : S.Code} {next : EffectId → Program S α} (allowed : creates)
      (code : Observes sem asks creates (sem c))
      (rest : ∀ r, Observes sem asks creates (next r)) :
      Observes sem asks creates (step (.spawn c) next)

/-- What an operation reads for the program that performs it, where `called` says what code reads
that is called. -/
def Op.ownReads (called : S.Code → World S → List Slot) (w : World S) : Op S → List Slot
  | .call c => called c w
  | op => op.recorded w.heap

/-- The slots that a program reads for itself in a run, in order. -/
def Program.ownReads (call : Caller S) (called : S.Code → World S → List Slot) :
    Program S α → World S → List Slot
  | .done _, _ => []
  | .step op next, w =>
    op.ownReads called w ++
      ((op.perform call w).map fun r => (next r.1).ownReads call called r.2).getD []

/-- The slots that code reads for itself, if its calls nest less than `bound` deep. -/
def Semantics.ownReads (sem : Semantics S) : Nat → S.Code → World S → List Slot
  | 0, _, _ => []
  | bound + 1, c, w => (sem c).ownReads (sem.caller bound) (sem.ownReads bound) w

variable {call : Caller S} {op : Op S} {w w1 : World S} {r : op.Reply}

lemma Program.ownReads_step (h : op.perform call w = some (r, w1))
    (called : S.Code → World S → List Slot) (next : op.Reply → Program S α) :
    (step op next).ownReads call called w =
      op.ownReads called w ++ (next r).ownReads call called w1 := by
  rw [ownReads, h]
  rfl

/-! ## Slots that are read again -/

/-- Slots, and after them the ones of `more` that are new, each once. -/
def Slot.adding (slots more : List Slot) : List Slot :=
  slots ++ (more.removeAll slots).eraseDups

namespace Slot

lemma adding_nil (slots : List Slot) : adding slots [] = slots := append_nil slots

lemma nil_adding (more : List Slot) : adding [] more = more.eraseDups := by
  rw [adding, removeAll_nil, nil_append]

lemma adding_single (slots : List Slot) (s : Slot) :
    adding slots [s] = if s ∈ slots then slots else slots ++ [s] := by
  by_cases hs : s ∈ slots <;> simp [adding, removeAll, eraseDups_cons, hs]

lemma adding_append (slots more rest : List Slot) :
    adding slots (more ++ rest) = adding (adding slots more) rest := by
  have hrest : (rest.removeAll slots).removeAll (more.removeAll slots) =
      rest.removeAll (adding slots more) := by
    simp only [List.removeAll, List.filter_filter]
    refine filter_congr fun s _ => ?_
    by_cases hs : s ∈ slots <;> simp [adding, removeAll, hs]
  have hall : (more ++ rest).removeAll slots = more.removeAll slots ++ rest.removeAll slots :=
    filter_append _ _
  rw [adding, hall, eraseDups_append, hrest, ← append_assoc]
  rfl

end Slot

lemma Registry.Consistent.dependenciesOf_track {r : Registry} (h : r.Consistent)
    (e e' : EffectId) (s : Slot) : (r.track e s).dependenciesOf e' =
      if e' = e then adding (r.dependenciesOf e) [s] else r.dependenciesOf e' := by
  rw [adding_single, Registry.track]
  by_cases hs : e ∈ r.subscribersOf s
  · rw [if_pos hs, if_pos ((h.agree e s).mp hs)]
    split
    · rename_i he
      rw [he]
    · rfl
  · rw [if_neg hs, if_neg (mt (h.agree e s).mpr hs)]
    exact Assoc.get_push r.dependencies e e' s

/-! ## What looking leaves as it is -/

namespace World

/-- Everything but the registry is left as it was, up to what may have been created. -/
structure Steady (creates : Prop) (w w' : World S) : Prop extends w.Restored w' where
  maxDepth : w'.maxDepth = w.maxDepth
  body : ∀ e, e.index < w.effects.size → w'.effectBody e = w.effectBody e
  consistent : w.registry.Consistent → w'.registry.Consistent
  kept : ¬ creates → w'.heap = w.heap ∧ w'.effects.size = w.effects.size

def NotBorn (w w' : World S) (e : EffectId) : Prop :=
  e.index < w.effects.size ∨ w'.effects.size ≤ e.index

/-- The running effect has read these slots, and nothing else has happened to those who were there
already. -/
structure Observed (creates : Prop) (reads : List Slot) (w w' : World S) : Prop
    extends Steady creates w w' where
  dependencies : w.registry.Consistent → ∀ e, w.NotBorn w' e →
    w'.registry.dependenciesOf e =
      if w.active = some e then adding (w.registry.dependenciesOf e) reads
      else w.registry.dependenciesOf e

lemma Steady.trans (h : w.Steady creates w1) (h' : w1.Steady creates w2) :
    w.Steady creates w2 where
  toRestored := h.toRestored.trans h'.toRestored
  maxDepth := h'.maxDepth.trans h.maxDepth
  body e he := (h'.body e (he.trans_le h.size)).trans (h.body e he)
  consistent hw := h'.consistent (h.consistent hw)
  kept hc := ⟨(h'.kept hc).1.trans (h.kept hc).1, (h'.kept hc).2.trans (h.kept hc).2⟩

lemma Steady.effectBody (h : w.Steady creates w') (hc : ¬ creates) (e : EffectId) :
    w'.effectBody e = w.effectBody e := by
  by_cases he : e.index < w.effects.size
  · exact h.body e he
  · have hge : w.effects.size ≤ e.index := Nat.le_of_not_lt he
    rw [World.effectBody, World.effectBody, Array.getElem?_eq_none hge,
      Array.getElem?_eq_none (by rw [(h.kept hc).2]; exact hge)]

lemma NotBorn.left (h : w.NotBorn w2 e) (hsize : w1.effects.size ≤ w2.effects.size) :
    w.NotBorn w1 e :=
  h.imp_right hsize.trans

lemma NotBorn.right (h : w.NotBorn w2 e) (hsize : w.effects.size ≤ w1.effects.size) :
    w1.NotBorn w2 e :=
  h.imp_left fun he => he.trans_le hsize

lemma Observed.trans (h : w.Observed creates slots w1) (h' : w1.Observed creates more w2) :
    w.Observed creates (slots ++ more) w2 where
  toSteady := h.toSteady.trans h'.toSteady
  dependencies hw e he := by
    rw [h'.dependencies (h.consistent hw) e (he.right h.size), h.active,
      h.dependencies hw e (he.left h'.size)]
    split
    · rw [adding_append]
    · rfl

lemma dependenciesOf_trackAll (hw : w.registry.Consistent) (slots : List Slot) :
    (w.trackAll slots).registry.Consistent ∧ ∀ e, (w.trackAll slots).registry.dependenciesOf e =
        if w.active = some e then adding (w.registry.dependenciesOf e) slots
        else w.registry.dependenciesOf e := by
  induction slots generalizing w with
  | nil => exact ⟨hw, fun e => by rw [adding_nil, ite_self]; rfl⟩
  | cons s rest ih =>
    cases ha : w.active with
    | none =>
      have hs : w.trackAll (s :: rest) = w := trackAll_of_inactive ha _
      rw [hs]
      exact ⟨hw, fun e => (if_neg nofun).symm⟩
    | some e0 =>
      have hs : (w.track s).registry = w.registry.track e0 s := by
        rw [track, ha]
      have hcons : (w.track s).registry.Consistent := by
        rw [hs]
        exact hw.track e0 s
      obtain ⟨hlast, hdeps⟩ := ih hcons
      refine ⟨hlast, fun e => (hdeps e).trans ?_⟩
      rw [active_track, ha, hs, hw.dependenciesOf_track]
      by_cases he : some e0 = some e
      · obtain rfl := some.inj he
        simp only [if_true]
        rw [← adding_append]
        rfl
      · simp only [if_neg he]
        exact if_neg fun h => he (by rw [h])

lemma Observed.of_trackAll (hr : w'.registry = (w.trackAll slots).registry)
    (he : w'.effects = w.effects) (ha : w'.active = w.active) (hm : w'.maxDepth = w.maxDepth)
    (hh : ¬ creates → w'.heap = w.heap) : w.Observed creates slots w' where
  toRestored := .of_effects ha he
  maxDepth := hm
  body e _ := effectBody_congr he e
  consistent hw := by
    rw [hr]
    exact (dependenciesOf_trackAll hw slots).1
  kept hc := ⟨hh hc, by rw [he]⟩
  dependencies hw e _ := by
    rw [hr]
    exact (dependenciesOf_trackAll hw slots).2 e

lemma Observed.refl (w : World S) : w.Observed creates [] w :=
  .of_trackAll rfl rfl rfl rfl fun _ => rfl

end World

open World

lemma Op.Looks.observed (hop : op.Looks asks creates) (h : op.perform call w = some (r, w')) :
    w.Observed creates (op.recorded w.heap) w' := by
  cases op with
  | read q =>
    obtain ⟨⟨a, slots⟩, ha, ⟨⟩⟩ := map_eq_some_iff.mp h
    have hslots : (Op.read q : Op S).recorded w.heap = slots := by
      rw [recorded, ha]
      rfl
    rw [hslots]
    exact .of_trackAll rfl (effects_trackAll w slots) (active_trackAll w slots)
      (maxDepth_trackAll w slots) fun _ => heap_trackAll w slots
  | peek q =>
    obtain ⟨⟨a, slots⟩, ha, ⟨⟩⟩ := map_eq_some_iff.mp h
    exact .refl w
  | track s =>
    cases h
    exact .of_trackAll rfl (effects_track w s) (active_track w s) (maxDepth_track w s) fun _ =>
      heap_trackAll w [s]
  | newObject | newList | newHost =>
    cases h
    exact .of_trackAll rfl rfl rfl rfl fun hc => absurd hop hc
  | write | call | within | spawn | rerun | trigger | dispose | clearDependencies | setMaxDepth =>
    exact hop.elim
  | _ =>
    cases h
    exact .of_trackAll rfl rfl rfl rfl fun _ => rfl

/-! ## Runs of effects that only look -/

/-- Code only looks, however deep its calls nest. -/
def Semantics.LooksOn (sem : Semantics S) (creates : Prop) (c : S.Code) : Prop :=
  ∀ {bound w r w'}, sem.caller bound c w = some (r, w') →
    w.Observed creates (sem.ownReads bound c w) w'

namespace World

lemma Observed.untracked (h : ({ w with active := none } : World S).Observed creates slots w1) :
    w.Observed creates [] { w1 with active := w.active } where
  toSteady := { h.toSteady with active := rfl }
  dependencies hw e he := by
    rw [adding_nil, ite_self]
    exact (h.dependencies hw e he).trans (if_neg nofun)

lemma steady_leave (hb : w.effectBody e = some c) (h : (w.enter e).Observed creates slots w1) :
    w.Steady creates (w1.leave e w.active) := by
  have henter : (w.enter e).effects.size = w.effects.size := by
    rw [effects_enter, size_modifyDepth]
  have hleave : (w1.leave e w.active).effects.size = w1.effects.size := size_modifyDepth _ _ _
  exact
    { toRestored := h.toRestored.leave hb
      maxDepth := h.maxDepth.trans (maxDepth_enter w e)
      body := fun e' he' => by
        rw [effectBody_leave, h.body e' (henter ▸ he'), effectBody_enter]
      consistent := fun hw => h.consistent (by rw [registry_enter]; exact hw.clearDependencies e)
      kept := fun hc =>
        ⟨(h.kept hc).1.trans (heap_enter w e), hleave.trans ((h.kept hc).2.trans henter)⟩ }

lemma dependencies_leave (hw : w.registry.Consistent) (h : (w.enter e).Observed creates slots w1)
    (he' : w.NotBorn (w1.leave e w.active) e') :
    (w1.leave e w.active).registry.dependenciesOf e' =
      if e' = e then slots.eraseDups else w.registry.dependenciesOf e' := by
  have hcons : (w.enter e).registry.Consistent := by
    rw [registry_enter]
    exact hw.clearDependencies e
  have hborn : (w.enter e).NotBorn w1 e' := by
    have hleave : (w1.leave e w.active).effects.size = w1.effects.size := size_modifyDepth _ _ _
    rw [NotBorn, effects_enter, size_modifyDepth, ← hleave]
    exact he'
  refine (h.dependencies hcons e' hborn).trans ?_
  rw [active_enter, registry_enter, Registry.dependenciesOf_clearDependencies]
  by_cases he : e' = e
  · subst he
    simp only [if_true, nil_adding]
  · rw [if_neg (fun h => he (some.inj h).symm), if_neg he, if_neg he]

lemma steady_runEffect (hb : w.effectBody e = some c) (hc : sem.LooksOn creates c)
    (h : runEffect (sem.caller bound) e w = some w') : w.Steady creates w' ∧
      (w.registry.Consistent → ∀ e', w.NotBorn w' e' → e' ≠ e →
        w'.registry.dependenciesOf e' = w.registry.dependenciesOf e') := by
  rcases runEffect_cases h with ⟨hnone, -⟩ | ⟨c', -, -, rfl⟩ | ⟨c', r, w1, hb', -, hrun, rfl⟩
  · rw [hb] at hnone
    cases hnone
  · have hsame : w.Observed creates [] (w.write [.event .effectTooDeep]) :=
      .of_trackAll rfl rfl rfl rfl fun _ => rfl
    exact ⟨hsame.toSteady, fun _ _ _ _ => rfl⟩
  · obtain rfl := some.inj (hb.symm.trans hb')
    refine ⟨steady_leave hb (hc hrun), fun hw e' he' hne => ?_⟩
    rw [dependencies_leave hw (hc hrun) he', if_neg hne]

lemma effectBody_newEffect_self (w : World S) (c : S.Code) :
    (w.newEffect c).2.effectBody (w.newEffect c).1 = some c := by
  rw [effectBody_newEffect]
  exact if_pos rfl

lemma observed_spawn (hc : sem.LooksOn creates c) (hcreates : creates)
    (h : runEffect (sem.caller bound) (w.newEffect c).1 (w.newEffect c).2 = some w') :
    w.Observed creates [] w' := by
  have hnew : (w.newEffect c).2.effects.size = w.effects.size + 1 := Array.size_push _
  obtain ⟨hsteady, hdeps⟩ := steady_runEffect (effectBody_newEffect_self w c) hc h
  have hsize : w.effects.size + 1 ≤ w'.effects.size := hnew ▸ hsteady.size
  refine ⟨⟨(Restored.newEffect w c).trans hsteady.toRestored, hsteady.maxDepth, fun e he => ?_,
    hsteady.consistent, fun hno => absurd hcreates hno⟩, fun hw e he => ?_⟩
  · rw [hsteady.body e (by omega), effectBody_newEffect]
    exact if_neg (by omega)
  · rw [adding_nil, ite_self]
    refine hdeps hw e (he.imp_left fun hlt => by omega) ?_
    rintro rfl
    rcases he with hlt | hge
    · exact Nat.lt_irrefl _ hlt
    · exact Nat.not_succ_le_self _ (hsize.trans hge)

end World

lemma World.exists_runEffect
    (h : ∀ c, w.effectBody e = some c → ∃ bound r, sem.caller bound c (w.enter e) = some r) :
    ∃ bound w', runEffect (sem.caller bound) e w = some w' := by
  cases hb : w.effectBody e with
  | none => exact ⟨0, w, runEffect_of_gone _ hb⟩
  | some c =>
    by_cases hd : w.effectDepth e < w.maxDepth
    · obtain ⟨bound, r, hr⟩ := h c hb
      exact ⟨bound, _, by rw [runEffect_of_room _ hb hd, hr]; rfl⟩
    · exact ⟨0, _, runEffect_of_deep _ hb (by omega)⟩

lemma Program.exists_step {next : op.Reply → Program S α}
    (hr : op.perform (sem.caller n) w = some (r, w1)) (hsteady : w.Steady creates w1)
    (hasks : ∀ q, asks q → ∀ h, (¬ creates → h = w.heap) → ∃ a, q.answer h = some a) (hrest : (∀ q,
    asks q → ∀ h, (¬ creates → h = w1.heap) → ∃ a, q.answer h = some a) → ∃ bound a w', (next r).run
      (sem.caller bound) w1 = some (a, w')) :
    ∃ bound a w', (step op next).run (sem.caller bound) w = some (a, w') := by
  obtain ⟨n', a, w', h⟩ := hrest fun q hq h hh =>
    hasks q hq h fun hno => (hh hno).trans (hsteady.kept hno).1
  refine ⟨max n n', a, w', ?_⟩
  rw [run_step, op.perform_mono (sem.caller_mono (Nat.le_max_left n n')) hr]
  exact run_mono (sem.caller_mono (Nat.le_max_right n n')) h

namespace Program.Observes

variable {p : Program S α}

lemma observed (hp : p.Observes sem asks creates) (h : p.run (sem.caller bound) w = some (a, w')) :
    w.Observed creates (p.ownReads (sem.caller bound) (sem.ownReads bound) w) w' := by
  -- what is known of a piece of code carries over to every caller
  have caller : ∀ {c : S.Code}, (∀ {bound w a w'}, (sem c).run (sem.caller bound) w = some (a, w') →
      w.Observed creates ((sem c).ownReads (sem.caller bound) (sem.ownReads bound) w) w') →
      sem.LooksOn creates c := by
    intro c ih bound w r w' h
    cases bound with
    | zero => cases h
    | succ n => exact ih h
  induction hp generalizing bound w w' with
  | done b =>
    cases h
    exact .refl _
  | @look _ op next hop _ ih =>
    obtain ⟨r, w1, hr, hrest⟩ := of_run_step h
    have hown : op.ownReads (sem.ownReads bound) w = op.recorded w.heap := by
      cases op <;> first | rfl | exact hop.elim
    rw [ownReads_step hr, hown]
    exact (hop.observed hr).trans (ih r hrest)
  | call _ _ ihc ih =>
    obtain ⟨r, w1, hr, hrest⟩ := of_run_step h
    rw [ownReads_step hr]
    exact (caller ihc hr).trans (ih r hrest)
  | @untracked _ c _ _ _ ihc ih =>
    obtain ⟨r, w1, hr, hrest⟩ := of_run_step h
    rw [ownReads_step hr]
    refine Observed.trans ?_ (ih r hrest)
    rw [Op.perform, runWithin] at hr
    split at hr
    · cases hr
    · rename_i r1 w2 hc
      cases hr
      exact (caller ihc hc).untracked
  | spawn hcreates _ _ ihc ih =>
    obtain ⟨r, w1, hr, hrest⟩ := of_run_step h
    rw [ownReads_step hr]
    obtain ⟨w2, he, ⟨⟩⟩ := map_eq_some_iff.mp hr
    exact (observed_spawn (caller ihc) hcreates he).trans (ih _ hrest)

lemma looksOn (hc : (sem c).Observes sem asks creates) : sem.LooksOn creates c := by
  intro bound w r w' h
  cases bound with
  | zero => cases h
  | succ n => exact hc.observed h

/-- A program that only looks comes to its end, if its questions have answers: in any heap, or,
where nothing is created, in the heap as it is. -/
lemma exists_run (hp : p.Observes sem asks creates)
    (hasks : ∀ q, asks q → ∀ h, (¬ creates → h = w.heap) → ∃ a, q.answer h = some a) :
    ∃ bound a w', p.run (sem.caller bound) w = some (a, w') := by
  induction hp generalizing w with
  | done a => exact ⟨0, a, w, rfl⟩
  | @look _ op next hop _ ih =>
    have hop' : ∃ r, op.perform (sem.caller 0) w = some r := by
      cases op with
      | read q | peek q =>
        obtain ⟨a, ha⟩ := hasks q hop w.heap fun _ => rfl
        exact ⟨_, by rw [Op.perform, ha]; rfl⟩
      | write | call | within | spawn | rerun | trigger | dispose | clearDependencies
      | setMaxDepth => exact hop.elim
      | _ => exact ⟨_, rfl⟩
    obtain ⟨⟨r, w1⟩, hr⟩ := hop'
    exact exists_step hr (hop.observed hr).toSteady hasks (ih r)
  | @call _ c _ hc _ ihc ih =>
    obtain ⟨n, r, w1, hr⟩ := ihc hasks
    have hcall : sem.caller (n + 1) c w = some (r, w1) := hr
    have hop : (Op.call c).perform (sem.caller (n + 1)) w = some (r, w1) := hr
    exact exists_step hop (hc.looksOn hcall).toSteady hasks (ih r)
  | @untracked _ c _ hc _ ihc ih =>
    obtain ⟨n, r, w1, hr⟩ := ihc (w := { w with active := none }) hasks
    have hcall : sem.caller (n + 1) c { w with active := none } = some (r, w1) := hr
    have hop : (Op.within none c).perform (sem.caller (n + 1)) w =
        some (r, { w1 with active := w.active }) := by
      rw [Op.perform, runWithin, hcall]
    exact exists_step hop (hc.looksOn hcall).untracked.toSteady hasks (ih r)
  | @spawn _ c _ hcreates hc _ ihc ih =>
    have hbody : ∀ c', (w.newEffect c).2.effectBody (w.newEffect c).1 = some c' →
        ∃ bound r, sem.caller bound c' ((w.newEffect c).2.enter (w.newEffect c).1) = some r := by
      intro c' hc'
      obtain rfl := some.inj ((effectBody_newEffect_self w c).symm.trans hc')
      obtain ⟨n, r, w1, hr⟩ := ihc (w := (w.newEffect c).2.enter (w.newEffect c).1)
        fun q hq h _ => hasks q hq h fun hno => absurd hcreates hno
      exact ⟨n + 1, _, hr⟩
    obtain ⟨n, w1, hr⟩ := exists_runEffect hbody
    have hop : (Op.spawn c).perform (sem.caller n) w = some ((w.newEffect c).1, w1) := by
      show (runEffect _ (w.newEffect c).1 (w.newEffect c).2).map _ = _
      rw [hr]
      rfl
    exact exists_step hop (observed_spawn hc.looksOn hcreates hr).toSteady hasks (ih _)

end Program.Observes

/-! ## The dependencies of an effect -/

/-- Whenever an effect runs whose body only looks, it depends afterwards on what its body has read
for itself, in the order of the first reads, and nobody else who was there before, or is not there
yet, depends on anything else than before. The run comes to its end if its questions have answers.
-/
theorem Semantics.dependencies_are_latest_reads (sem : Semantics S) (p : Program S α) (x : S.State)
    {n : Nat} {m : Moment S} (hm : sem.after (.code p .nothing { state := x }) n = some m)
    {e : EffectId} {c : S.Code} (hb : m.world.effectBody e = some c)
    (hroom : m.world.effectDepth e < m.world.maxDepth)
    (hc : (sem c).Observes sem (fun _ => True) True) :
    (∀ bound w', runEffect (sem.caller bound) e m.world = some w' →
      w'.registry.dependenciesOf e = (sem.ownReads bound c (m.world.enter e)).eraseDups ∧
      ∀ e', e' ≠ e → m.world.NotBorn w' e' →
        w'.registry.dependenciesOf e' = m.world.registry.dependenciesOf e') ∧
    ((sem c).Observes sem (fun q => ∀ h, ∃ a, q.answer h = some a) True →
      ∃ bound w', runEffect (sem.caller bound) e m.world = some w') := by
  have hstart : (Moment.code p .nothing { state := x }).world.registry.Consistent := .empty
  have hcons : m.world.registry.Consistent := consistent_after hstart hm
  refine ⟨fun bound w' h => ?_, fun htotal => exists_runEffect fun c' hc' => ?_⟩
  · have hothers := (steady_runEffect hb hc.looksOn h).2 hcons
    rw [runEffect_of_room _ hb hroom] at h
    obtain ⟨⟨r, w₁⟩, hrun, rfl⟩ := map_eq_some_iff.mp h
    refine ⟨?_, fun e' hne he' => hothers e' he' hne⟩
    have hlt : e.index < m.world.effects.size := index_lt_of_effectBody hb
    rw [dependencies_leave hcons (hc.looksOn hrun) (.inl hlt), if_pos rfl]
  · obtain rfl := some.inj (hb.symm.trans hc')
    obtain ⟨bound, r, w₁, hr⟩ := htotal.exists_run fun q hq h _ => hq h
    exact ⟨bound + 1, _, hr⟩

/-! ## An effect that looks elsewhere -/

/-- An effect, code that it runs untracked, and the effects that it creates. -/
inductive Watcher.Part
  | watch
  | hidden
  | child
deriving DecidableEq

def Watcher : Signature where
  Code := Watcher.Part
  Reply _ := Unit
  State := Unit

namespace Watcher

instance : DecidableEq Watcher.Code :=
  inferInstanceAs (DecidableEq Part)

def ask (name : String) (next : Option Value → Program Watcher Unit) : Program Watcher Unit :=
  .step (.read (.property ⟨0⟩ name)) next

/-- Looks to the left or to the right, and also at what it does not depend on. -/
def watch : Semantics Watcher
  | .watch =>
    ask "on" fun on =>
    .step (.within none .hidden) fun _ =>
    .step (.spawn .child) fun _ =>
    ask (if on.any (·.isTruthy) then "left" else "right") fun _ =>
    ask "on" fun _ => .done ()
  | .hidden => ask "hidden" fun _ => .done ()
  | .child => ask "child" fun _ => .done ()

/-- The effect is created while it is to look to the left, and is then told to look to the right. -/
def story : Program Watcher Unit := do
  let o ← Program.newObject (.ofList [("on", .bool true)])
  let _ ← Program.perform (S := Watcher) (.spawn .watch)
  Program.write (.set o "on" (.bool false))

def start : Moment Watcher :=
  .code story .nothing { state := () }

lemma observes_watch : (watch .watch).Observes watch (fun _ => True) True := by
  have hask : ∀ name, (ask name fun _ => .done ()).Observes watch (fun _ => True) True :=
    fun name => .look trivial fun _ => .done ()
  exact .look trivial fun _ => .untracked (hask "hidden") fun _ =>
    .spawn trivial (hask "child") fun _ => .look trivial fun _ => hask "on"

/-- Before the second run the effect depends on what is to the left, and after it on what is to the
right. What it has looked at untracked and what its children have looked at is not among it, and the
first child depends on what it did. -/
theorem dependencies_are_latest_reads_story :
    ∃ m w', watch.after start 21 = some m ∧ runEffect (watch.caller 2) ⟨0⟩ m.world = some w' ∧
      m.world.registry.dependenciesOf ⟨0⟩ = [.property ⟨0⟩ "on", .property ⟨0⟩ "left"] ∧
      w'.registry.dependenciesOf ⟨0⟩ = [.property ⟨0⟩ "on", .property ⟨0⟩ "right"] ∧
      w'.registry.dependenciesOf ⟨1⟩ = m.world.registry.dependenciesOf ⟨1⟩ := by
  have hchecks : ((watch.after start 21).any fun m =>
      decide (m.world.effectBody ⟨0⟩ = some .watch) &&
        decide (m.world.effectDepth ⟨0⟩ < m.world.maxDepth) &&
        decide (m.world.registry.dependenciesOf ⟨0⟩ = [.property ⟨0⟩ "on", .property ⟨0⟩ "left"]) &&
        decide ((watch.ownReads 2 .watch (m.world.enter ⟨0⟩)).eraseDups =
          [.property ⟨0⟩ "on", .property ⟨0⟩ "right"]) &&
        decide (1 < m.world.effects.size) &&
        (runEffect (watch.caller 2) ⟨0⟩ m.world).isSome) = true := by
    decide +kernel
  obtain ⟨m, hm, hchecks⟩ := (any_eq_true _ _).mp hchecks
  simp only [Bool.and_eq_true, decide_eq_true_eq] at hchecks
  obtain ⟨⟨⟨⟨⟨hb, hroom⟩, hbefore⟩, hreads⟩, hsize⟩, hrun⟩ := hchecks
  obtain ⟨w', hw'⟩ := isSome_iff_exists.mp hrun
  obtain ⟨hown, hothers⟩ := (watch.dependencies_are_latest_reads story () hm hb hroom
    observes_watch).1 2 w' hw'
  exact ⟨m, w', hm, hw', hbefore, hown.trans hreads, hothers ⟨1⟩ (by decide) (.inl hsize)⟩

end Watcher

end LiveMarkup
