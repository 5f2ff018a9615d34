import LiveMarkup.Proofs.Mounted

/-!
# Refreshing a mounted instance

A run of the effect of a mounted instance renders the instance and writes its target. From then on
this rendering accounts for what the target shows. Mounted hooks run after that, so what they change
triggers the effect once more, inside itself.

Between the start and the end of a run the effect counts as running, which the invariant does not
allow for an instance whose hooks have not run. So until the hooks start, the invariant is stated
for the world as it will be when the run is over.
-/

namespace LiveMarkup

open Option World View

variable {beh : Behaviour C} {M : Mounting}

open Program

/-! ## What a refresh does -/

namespace View

variable {call : C.Caller}

lemma run_modify (f : ViewState C → ViewState C) :
    (modify f).run call w = some ((), { w with state := f w.state }) :=
  rfl

lemma run_instance? (i : InstanceId) :
    (instance? i).run call w = some (w.state.instances[i.index]?, w) :=
  rfl

/-- A target to which markup of an instance has been written. -/
def rewritten (i : InstanceId) (data : ObjectId) (html : String) (t : Target) : Target where
  content := (Binding.extract html).markup
  handlers := (Binding.extract html).bindings.map fun b => (b, handlerOf i data b)
  writes := t.writes + 1

def written (i : InstanceId) (data : ObjectId) (html : String) (t : TargetId) (s : ViewState C) :
    ViewState C :=
  { s with targets := s.targets.modify t.index (rewritten i data html) }

def renderReport : Except RenderError String → List LogLine
  | .ok _ => []
  | .error _ => [.event .renderFailed]

/-- The world in which a rendering that ended in `w` has been written to a target. -/
abbrev publishedIn (w : C.World) (i : InstanceId) (data : ObjectId) (t : TargetId)
    (r : Except RenderError String) : C.World :=
  { w.write (renderReport r) with
    state := written i data (outcome w.state.settings r).html t w.state }

lemma run_settle (r : Except RenderError String) : (settle .render .renderFailed r).run call w =
      some (outcome w.state.settings r, w.write (renderReport r)) := by
  cases r <;> rfl

lemma run_renderTop (hx : w.state.instances[i.index]? = some x)
    (hcall : call x.code { w with state := { w.state with pushed := .empty } } = some (r, w1))
    (hy : w1.state.instances[i.index]? = some y) (ht : y.target = some t) :
    (renderTop i).run call w =
      some (outcome w1.state.settings r, publishedIn w1 i x.data t r) := by
  have hrender : (renderInstance x).run call { w with state := { w.state with pushed := .empty } } =
      some (r, w1) := by
    rw [renderInstance, render, Program.call, run_perform]
    exact hcall
  have hnow : (w1.write (renderReport r)).state.instances[i.index]? = some y := hy
  rw [renderTop, run_bind, resetStacks, run_modify, bind_some, run_bind, run_instance?]
  simp only [bind_some, hx]
  rw [run_bind, hrender, bind_some, run_bind, run_settle, bind_some, run_bind, run_instance?]
  simp only [bind_some, hnow, ht]
  rw [run_bind, writeTarget, modifyTarget, run_modify, bind_some]
  rfl

lemma renderTop_cases (hx : w.state.instances[i.index]? = some x)
    (hr : (renderTop i).run call w = some (rendered, w')) :
    ∃ r w1, call x.code { w with state := { w.state with pushed := .empty } } = some (r, w1) ∧
      ∀ {y t}, w1.state.instances[i.index]? = some y → y.target = some t →
        w' = publishedIn w1 i x.data t r := by
  have hrun := hr
  rw [renderTop, run_bind, resetStacks, run_modify, bind_some, run_bind, run_instance?] at hrun
  simp only [bind_some, hx] at hrun
  rw [run_bind] at hrun
  obtain ⟨⟨r, w1⟩, hcall, -⟩ := bind_eq_some_iff.mp hrun
  rw [renderInstance, render, Program.call, run_perform] at hcall
  refine ⟨r, w1, hcall, ?_⟩
  intro y t hy ht
  rw [run_renderTop hx hcall hy ht] at hr
  exact (congrArg Prod.snd (some.inj hr)).symm

abbrev changed (i : InstanceId) (f : C.Instance → C.Instance) (s : ViewState C) :
    ViewState C :=
  { s with instances := s.instances.modify i.index f }

lemma afterRender_cases (hx : w.state.instances[i.index]? = some x)
    (hr : (afterRender i rendered).run call w = some ((), w')) :
    w' = w ∨ x.mounted = false ∧
      (hooksOf x.hooks >>= fun hooks => runHooks i hooks.mounted).run call
        { w with state := changed i (fun x => { x with mounted := true }) w.state } =
          some ((), w') := by
  cases rendered with
  | diagnostic d =>
    cases hr
    exact .inl rfl
  | markup html =>
    rw [afterRender, run_bind, run_instance?] at hr
    simp only [bind_some, hx] at hr
    cases hm : x.mounted with
    | true =>
      rw [hm] at hr
      cases hr
      exact .inl rfl
    | false =>
      rw [hm] at hr
      exact .inr ⟨rfl, hr⟩

lemma run_retire (hx : w.state.instances[i.index]? = some x)
    (hkept : x.released = false) : (retire i).run call w = some ((), w) := by
  have halive : x.isAlive = true := by simp [Instance.isAlive, hkept]
  rw [retire, run_bind, run_instance?]
  simp only [bind_some, hx, halive, if_true]
  rfl

def windUp (i : InstanceId) : View C Unit := do
  modifyInstance i fun x => { x with busy := x.busy - 1 }
  retire i

lemma refresh_cases (hx : w.state.instances[i.index]? = some x) (hkept : x.released = false)
    (hr : (refresh i).run call w = some ((), w')) :
    ∃ rendered w1 w2,
      (renderTop i).run call
        { w with state := changed i (fun x => { x with busy := x.busy + 1 }) w.state } =
          some (rendered, w1) ∧
      (afterRender i rendered).run call w1 = some ((), w2) ∧
      (windUp i).run call w2 = some ((), w') := by
  have halive : x.isAlive = true := by simp [Instance.isAlive, hkept]
  rw [refresh, run_bind, run_instance?] at hr
  simp only [bind_some, hx, halive, if_true] at hr
  rw [during, run_bind, modifyInstance, run_modify, bind_some, run_bind, run_bind] at hr
  obtain ⟨⟨⟨⟩, w2⟩, hrun, hend⟩ := bind_eq_some_iff.mp hr
  obtain ⟨⟨rendered, w1⟩, hrender, hafter⟩ := bind_eq_some_iff.mp hrun
  refine ⟨rendered, w1, w2, hrender, hafter, ?_⟩
  rw [run_bind, modifyInstance, run_modify, bind_some, run_bind] at hend
  obtain ⟨⟨⟨⟩, w3⟩, hretire, hdone⟩ := bind_eq_some_iff.mp hend
  cases hdone
  exact hretire

end View

/-! ## The target is written -/

lemma getElem?_modify_self {xs : Array α} (h : xs[i]? = some a) (f : α → α) :
    (xs.modify i f)[i]? = some (f a) := by
  rw [Array.getElem?_modify, if_pos rfl, h]
  rfl

lemma View.later_written (i : InstanceId) (data : ObjectId) (html : String) (t : TargetId)
    (s : ViewState C) : s.Later (written i data html t s) :=
  ⟨fun _ _ => rfl, le_rfl, fun _ _ => rfl, rfl, rfl⟩

lemma View.shows_written {x : Target} (hx : s.targets[t.index]? = some x) (i : InstanceId)
    (data : ObjectId) (html : String) :
    ∃ y, (written i data html t s).targets[t.index]? = some y ∧ y.Shows i data html :=
  ⟨rewritten i data html x, getElem?_modify_self hx _, rfl, rfl⟩

namespace Mounting

variable {w : C.World}

lemma sealed_tidy (h : w.Sealed (M.conduct T) K) (ht : M.Tidy T K w.state y) :
    { w with state := y }.Sealed (M.conduct T) K :=
  ⟨h.heap, ht.orderly, h.effects, h.slots⟩

lemma sealed_written (h : w.Sealed (M.conduct T) K) (hdata : .object data ∈ K)
    (lines : List LogLine) (html : String) :
    { w.write lines with state := written M.self data html M.target w.state }.Sealed
      (M.conduct T) K := by
  refine ⟨h.heap, h.state.withTargets M.target ?_, h.effects, h.slots⟩
  intro x b hb
  obtain ⟨b, -, rfl⟩ := List.mem_map.mp hb
  exact handlerOf_known M.self hdata b

lemma sound_written (h : M.Sound T m w) (data : ObjectId) (lines : List LogLine) (html : String) :
    M.Sound T m
      { w.write lines with state := written M.self data html M.target w.state } := by
  obtain ⟨t, ht⟩ := h.place
  obtain ⟨y, hy, -⟩ := shows_written ht M.self data html
  exact ⟨h.limit, h.body, h.room, h.self, y, hy⟩

lemma inv_enter (h : (M.watch beh T m).Inv (M.conduct T) K P (e :: E) w)
    (hb : w.effectBody e = some (.refresh M.self)) :
    (M.watch beh T m).Inv (M.conduct T) K P (e :: E) ((w.enter e).leave e w.active) := by
  have hbody : ∀ e', ((w.enter e).leave e w.active).effectBody e' = w.effectBody e' := by
    intro e'
    rw [effectBody_leave, effectBody_enter]
  have hdepth : ∀ e', ((w.enter e).leave e w.active).effectDepth e' = w.effectDepth e' := by
    have hsize : w.effects.size ≤ (w.enter e).effects.size := by
      rw [effects_enter, size_modifyDepth]
    exact effectDepth_leave (index_lt_of_effectBody hb) hsize (fun _ => rfl) w.active
  have hleads : M.Leads w.state ((w.enter e).leave e w.active).state := by
    show M.Leads w.state (w.enter e).state
    rw [state_enter]
    exact .refl M w.state
  refine ⟨(h.sealed.enter e).leave e w.active, ?_, ?_⟩
  · refine h.good.step (.inr (maxDepth_enter w e)) (hbody _) ?_ hleads ?_
    · exact fun {e'} he => ⟨(hbody e').symm.trans he, le_of_eq (hdepth e')⟩
    · intro _ hless
      show (w.enter e).state.Hookless
      rwa [state_enter]
  · intro e' c hb' hc
    by_cases he : e' = e
    · exact .inr (.inr (he ▸ List.mem_cons_self))
    · -- the others remember what they depend on
      have hsubs : ∀ {s}, e' ∈ w.registry.subscribersOf s →
          e' ∈ ((w.enter e).leave e w.active).registry.subscribersOf s := by
        intro s hs
        show e' ∈ (w.enter e).registry.subscribersOf s
        rw [registry_enter]
        exact Registry.mem_subscribersOf_clearDependencies he hs
      rcases h.due ((hbody e').symm.trans hb') hc with hf | ⟨s, hs, hmem⟩ | hE
      · left
        intro heq
        obtain ⟨a, ha⟩ := hf heq
        have hheap : ((w.enter e).leave e w.active).heap = w.heap := heap_enter w e
        refine ⟨a, ha.step (hheap ▸ .refl _) ?_ (fun s hs => heq ▸ hsubs (heq ▸ hs)) hleads⟩
        intro s _ _
        rw [hheap]
        exact .of_eq (fun _ _ => rfl) fun _ _ => rfl
      · exact .inr (.inl ⟨s, hs, hsubs hmem⟩)
      · exact .inr (.inr hE)

variable {call : C.Caller}

lemma explains_written (hsealed : w.Sealed (M.conduct T) K) (hactive : w.active = some M.effect)
    (hpushed : w.state.pushed = .empty) (hx : w.state.instances[M.self.index]? = some x)
    (hr : beh.quietly T (n + 1) x.code w = some (r, w1))
    (hb : Built T {a | ¬ w.heap.Holds a} slots w w1)
    (ht : w1.state.targets[M.target.index]? = some t) :
    Account.Explains ⟨x, K, w, n, r, w1⟩ beh T M (publishedIn w1 M.self x.data M.target r) where
  scene := scene hsealed
  stores := hsealed.state.stores
  active := hactive
  pushed := hpushed
  code := (hsealed.state.instances hx).known.code_rel
  run := hr
  heap := hb.heap
  tracked s hs hknown := ⟨hs, unchanged_of_built hb (hsealed.heap.holds _ hknown)⟩
  later := hb.state.later.trans (later_written _ _ _ _ _)
  self := by
    refine ⟨x, ?_, rfl⟩
    show w1.state.instances[M.self.index]? = some x
    rw [hb.state.instances, hx]
  target := shows_written ht M.self x.data _

/-- Another effect of the instance that renders it again writes what the target shows already. -/
lemma explains_rewritten (hmakers : ∀ b ∈ T.makers, beh.Makes T b) {a : Account C}
    (ha : a.Explains beh T M w) (hsealed : w.Sealed (M.conduct T) K)
    (hpushed : w.state.pushed = .empty) (hx : w.state.instances[M.self.index]? = some x)
    (hr : beh.quietly T (n + 1) x.code w = some (r, w1))
    (hb : Built T {a | ¬ w.heap.Holds a} slots w w1)
    (ht : w1.state.targets[M.target.index]? = some t) :
    a.Explains beh T M (publishedIn w1 M.self x.data M.target r) := by
  obtain ⟨x', hx', hcode⟩ := ha.self
  obtain rfl : x = x' := some.inj (hx.symm.trans hx')
  obtain rfl : r = a.result := by
    obtain ⟨w2, hagain, -⟩ := ha.replay hmakers hsealed hpushed hcode
    -- both runs give the same with any larger bound
    have hr' := (semantics beh).caller_mono (le_max_left (n + 1) (a.bound + 1)) _ _ _
      (Behaviour.quietly_le _ _ _ _ hr)
    have hagain' := (semantics beh).caller_mono (le_max_right (n + 1) (a.bound + 1)) _ _ _ hagain
    exact congrArg Prod.fst (some.inj (hr'.symm.trans hagain'))
  have hdata : x.data = a.self.data := by
    injection hcode with _ _ howner
    injection howner
  have hpasses : M.Passes T w w1 := .of_built hb
  have ha1 : a.Explains beh T M w1 :=
    ha.step hb.heap (fun s _ hs => hpasses.unchanged hs) (fun s hs => hpasses.subscribers hs)
      hpasses.leads
  refine { ha1 with
      later := ha1.later.trans (later_written _ _ _ _ _)
      target := ?_ }
  rw [← hdata]
  exact shows_written ht M.self x.data _

section

variable (hmakers : ∀ b ∈ T.makers, beh.Makes T b)
  (h : (M.watch beh T m).Inv (M.conduct T) K P (e :: E) (w.leave e before))
  (hsealed : w.Sealed (M.conduct T) K) (hactive : w.active = some e)
include hmakers h hsealed hactive

/-- Writing the target brings the effect that runs up to date, and leaves the others as they are. -/
lemma inv_written (hpushed : w.state.pushed = .empty)
    (hx : w.state.instances[M.self.index]? = some x)
    (hr : beh.quietly T (n + 1) x.code w = some (r, w1))
    (hb : Built T {a | ¬ w.heap.Holds a} slots w w1) (hsealed1 : w1.Sealed (M.conduct T) K) :
    (M.watch beh T m).Inv (M.conduct T) K P E
      ((publishedIn w1 M.self x.data M.target r).leave e before) := by
  have hpasses := (Passes.of_built (M := M) hb).leave e before
  have h1 := hpasses.inv h (hsealed1.leave e before)
  have hdata : .object x.data ∈ K := (hsealed.state.instances hx).known.rel.data.1
  refine ⟨(sealed_written hsealed1 hdata _ _).leave e before, sound_written h1.good _ _ _, ?_⟩
  obtain ⟨t, ht⟩ := h1.good.place
  intro e' c hb' hc
  by_cases he' : e' = M.effect
  · subst he'
    by_cases hself : M.effect = e
    · refine .inl fun _ => ⟨_, { explains_written hsealed ?_ hpushed hx hr hb ht with }⟩
      rw [hactive, hself]
    · have hbw : (w.leave e before).effectBody M.effect = some c := by
        rw [← hb', effectBody_leave, effectBody_leave]
        exact (effectBody_congr hb.effects M.effect).symm
      rcases h.due hbw hc with hf | ⟨s, hs, hmem⟩ | hE
      · obtain ⟨a, ha⟩ := hf rfl
        have ha : a.Explains beh T M w := { ha with }
        exact .inl fun _ => ⟨a, { explains_rewritten hmakers ha hsealed hpushed hx hr hb ht with }⟩
      · exact .inr (.inl ⟨s, hs, hpasses.subscribers hmem⟩)
      · exact .inr (.inr ((List.mem_cons.mp hE).resolve_left hself))
  · exact .inl fun heq => absurd heq he'

/-- Rendering the instance and writing its target brings the effect that runs up to date. -/
lemma inv_rendered (hx : w.state.instances[M.self.index]? = some x)
    (htarget : x.target = some M.target)
    (hr : (renderTop M.self).run (beh.calmly T n) w = some (rendered, w1)) :
    (M.watch beh T m).Inv (M.conduct T) K P E (w1.leave e before) ∧ w1.Sealed (M.conduct T) K ∧
      w1.state.instances[M.self.index]? = some x ∧ w1.effects = w.effects := by
  have hreset := hsealed.state.resetStacks
  have hsealed' := sealed_tidy hsealed hreset
  have h' := ((Passes.of_keeps hreset.keeps).leave e before).inv h (hsealed'.leave e before)
  obtain ⟨r, w2, hcall, hw1⟩ := renderTop_cases hx hr
  cases n with
  | zero => cases hcall
  | succ n =>
    have hquiet : beh.quietly T (n + 1) x.code _ = some (r, w2) := hcall
    obtain ⟨slots, hbuilt, hsealed2⟩ := built_of_quietly hmakers hsealed'
      (hsealed.state.instances hx).known.code_rel hquiet
    have hx2 : w2.state.instances[M.self.index]? = some x := by
      rw [hbuilt.state.instances]
      exact hx
    have hdata : .object x.data ∈ K := (hsealed.state.instances hx).known.rel.data.1
    rw [hw1 hx2 htarget]
    exact ⟨inv_written hmakers h' hsealed' hactive rfl hx hquiet hbuilt hsealed2,
      sealed_written hsealed2 hdata _ _, hx2, hbuilt.effects⟩

end

/-! ## Hooks and the end of a run -/

section

variable (h : (M.watch beh T m).Inv (M.conduct T) K P E (w.leave e before))
  (hsealed : w.Sealed (M.conduct T) K)
include h hsealed

lemma inv_windUp (hr : (windUp M.self).run call w = some ((), w1)) :
    (M.watch beh T m).Inv (M.conduct T) K P E (w1.leave e before) := by
  have htidy := hsealed.state.modifyInstance M.self (f := fun x => { x with busy := x.busy - 1 })
    fun x => ⟨rfl, rfl, rfl, rfl, rfl, rfl, .inl rfl, rfl, id⟩
  obtain ⟨x, hx, -⟩ := h.good.self
  obtain ⟨x', hx', -⟩ := htidy.leads.self hx
  have hkept := (htidy.orderly.instances hx').alive rfl
  rw [windUp, run_bind, modifyInstance, run_modify, bind_some, run_retire hx' hkept] at hr
  obtain rfl := congrArg Prod.snd (some.inj hr)
  exact ((Passes.of_keeps htidy.keeps).leave e before).inv h ((sealed_tidy hsealed htidy).leave e _)

lemma inv_running (hlimit : 2 ≤ w.maxDepth) (hx : w.state.instances[M.self.index]? = some x)
    (hmounted : x.mounted = true) (hdepth : w.effectDepth e ≤ 1) :
    (M.watch beh T m).Inv (M.conduct T) K P E w := by
  have hbody := fun e' => effectBody_leave w e e' before
  obtain ⟨x', hx', htarget, hmount, hd⟩ := h.good.self
  obtain rfl : x = x' := some.inj (hx.symm.trans hx')
  have hone : ∀ {e'}, w.effectBody e' = some (.refresh M.self) → w.effectDepth e' ≤ 1 := by
    intro e' hb
    by_cases he : e' = e
    · exact he ▸ hdepth
    · have hle := hd ((hbody e').trans hb)
      rw [leave, effectDepth_modifyDepth_of_ne _ _ he, hmounted] at hle
      exact hle
  refine ⟨hsealed, ⟨.inl hlimit, (hbody _).symm.trans h.good.body, ?_, ?_, h.good.place⟩, ?_⟩
  · intro e' hb
    exact (hone hb).trans_lt hlimit
  · refine ⟨x, hx, htarget, hmount, ?_⟩
    rw [hmounted]
    exact hone
  · intro e' c hb hc
    rcases h.due ((hbody e').trans hb) hc with hf | hs | hE
    · refine .inl fun heq => ?_
      obtain ⟨a, ha⟩ := hf heq
      exact ⟨a, { ha with }⟩
    · exact .inr (.inl hs)
    · exact .inr (.inr hE)

end

lemma inv_hooks (hu : Upkeep (semantics beh) (beh.calmly T) (M.conduct T) (M.watch beh T m))
    (hcall : (M.watch beh T m).Behaves (M.conduct T) call)
    (h : (M.watch beh T m).Inv (M.conduct T) K P E (w.leave e before))
    (hsealed : w.Sealed (M.conduct T) K) (hdepth : w.effectDepth e ≤ 1) {x : C.Instance}
    (hx : w.state.instances[M.self.index]? = some x)
    (hhooks : (hooksOf x.hooks >>= fun hooks => runHooks M.self hooks.mounted).run call
      { w with state := changed M.self (fun x => { x with mounted := true }) w.state } = some ((), w1))
    (hend : (windUp M.self).run call w1 = some ((), w2)) :
    ∃ K', K ⊆ K' ∧ (M.watch beh T m).Inv (M.conduct T) K' P E (w2.leave e before) := by
  have htidy := hsealed.state.modifyInstance M.self (f := fun x => { x with mounted := true })
    fun x => ⟨rfl, rfl, rfl, rfl, rfl, rfl, .inl rfl, rfl, fun _ => rfl⟩
  have hsealed' := sealed_tidy hsealed htidy
  have h' := ((Passes.of_keeps htidy.keeps).leave e before).inv h (hsealed'.leave e before)
  rcases h.good.limit with htwo | ⟨-, hT, hless⟩
  · have hmarked := getElem?_modify_self hx fun x : C.Instance => { x with mounted := true }
    have hin := inv_running h' hsealed' htwo hmarked rfl hdepth
    obtain ⟨K1, hK1, h1, -⟩ := hu.run hcall ((honest_hooksOf x.hooks).bind
      fun hooks K _ hfixes => honest_runHooks M.self hfixes) hin hhooks
    have hwind : (windUp M.self).Minds M T K1 := by
      refine (honest_modifyInstance M.self ?_).bind fun _ _ _ _ => honest_retire M.self
      exact fun x => ⟨rfl, rfl, rfl, rfl, rfl, rfl, .inl rfl, rfl, id⟩
    obtain ⟨K2, hK2, h2, -⟩ := hu.run hcall hwind h1 hend
    exact ⟨K2, hK1.trans hK2, h2.like hu (.leave e before) (h2.sealed.leave e before)⟩
  · -- without hooks nothing runs in between
    have hnone : (w.state.hookSets[x.hooks.index]?.getD {}).mounted = [] := by
      refine List.eq_nil_iff_forall_not_mem.mpr ?_
      intro b hb
      cases hk : w.state.hookSets[x.hooks.index]? with
      | none =>
        rw [hk] at hb
        cases hb
      | some hooks =>
        rw [hk] at hb
        exact hless hooks (Array.mem_of_getElem? hk) b (.inl hb)
    have hdone : w1 = { w with
        state := changed M.self (fun x => { x with mounted := true }) w.state } := by
      rw [run_bind] at hhooks
      change (runHooks M.self (w.state.hookSets[x.hooks.index]?.getD {}).mounted).run call _ =
        _ at hhooks
      rw [hnone] at hhooks
      exact (congrArg Prod.snd (some.inj hhooks)).symm
    subst hdone
    exact ⟨K, subset_rfl, inv_windUp h' hsealed' hend⟩

lemma refreshes (hmakers : ∀ b ∈ T.makers, beh.Makes T b)
    (hbodies : ∀ {b o K}, (M.conduct T).code K (.invoke b o) →
      (beh.invoke b o).Honest (M.conduct T) (fun K r => ∀ v, r = .ok v → v.Known K) K) :
    (M.watch beh T m).Refreshes (semantics beh) (beh.calmly T) (M.conduct T) := by
  intro n hcall K P E w w' e c r h hb hc hr
  cases hc
  obtain ⟨x, hx, htarget, -, hd⟩ := h.good.self
  have hx0 : (w.enter e).state.instances[M.self.index]? = some x := by
    rw [state_enter, hx]
  have hsealed0 := h.sealed.enter e
  have hkept : x.released = false := (h.sealed.state.instances hx).alive rfl
  obtain ⟨rendered, w1, w2, hrender, hafter, hend⟩ := refresh_cases hx0 hkept hr
  have hbusy := hsealed0.state.modifyInstance M.self (f := fun x => { x with busy := x.busy + 1 })
    fun x => ⟨rfl, rfl, rfl, rfl, rfl, rfl, .inl rfl, rfl, id⟩
  have hsealed := sealed_tidy hsealed0 hbusy
  have hin := ((Passes.of_keeps hbusy.keeps).leave e w.active).inv (inv_enter h hb)
    (hsealed.leave e w.active)
  have hx' := getElem?_modify_self hx0 fun x : C.Instance => { x with busy := x.busy + 1 }
  obtain ⟨h1, hsealed1, hx1, heffects⟩ := inv_rendered hmakers hin hsealed rfl hx' htarget hrender
  rcases afterRender_cases hx1 hafter with rfl | ⟨hfirst, hhooks⟩
  · exact ⟨K, subset_rfl, inv_windUp h1 hsealed1 hend⟩
  · refine inv_hooks (upkeep hmakers hbodies) hcall h1 hsealed1 ?_ hx1 hhooks hend
    -- hooks run in the outermost run only
    have hdepth : w.effectDepth e ≤ x.mounted.toNat := hd hb
    have hfirst : x.mounted = false := hfirst
    rw [hfirst] at hdepth
    rw [effectDepth_congr heffects]
    show (w.enter e).effectDepth e ≤ 1
    rw [effectDepth_enter_self (index_lt_of_effectBody hb)]
    exact Nat.succ_le_succ hdepth

end Mounting

end LiveMarkup
