import LiveMarkup.Proofs.Mounting
import LiveMarkup.Proofs.Upkeep

/-!
# A mounted instance stays in sync

The effect of a mounted instance is kept fresh: there is an account of a rendering that took place,
the target shows what it came to, and everything it looked at has been the same ever since.
Rendering again then comes to the same.
-/

namespace LiveMarkup

open World View Behaviour

variable {beh : Behaviour C} {M : Mounting}

open Program

/-! ## Rendering calmly -/

/-- Runs all code as it says, but templates quietly. -/
noncomputable def Behaviour.calmly (beh : Behaviour C) (T : Terms C) : Nat → C.Caller
  | 0 => fun _ _ => none
  | n + 1 => fun
    | .render r scope owner, w => beh.quietly T (n + 1) (.render r scope owner) w
    | c, w => (semantics beh c).run (beh.calmly T n) w

lemma Behaviour.quietly_le_calmly (n : Nat) : (beh.quietly T n).Le (beh.calmly T n) := by
  induction n with
  | zero => exact fun _ _ _ h => nomatch h
  | succ n ih =>
    intro c w r hr
    have hrun := run_mono ih (quietly_succ hr).2
    cases c with
    | render => exact hr
    | invoke | refresh | task => exact hrun

lemma Behaviour.admits_calmly : (semantics beh).Admits (beh.calmly T) := by
  refine ⟨fun _ _ => rfl, ?_⟩
  intro n c w r hr
  cases c with
  | render => exact run_mono (quietly_le_calmly n) (quietly_succ hr).2
  | invoke | refresh | task => exact hr

/-! ## Quiet steps -/

lemma Mounting.Orderly.of_keeps (h : M.Orderly T K s) (hk : ViewState.Keeps T s s')
    (hcompiled : T.Compiled s') : M.Orderly T K s' := by
  have hcatalog : s'.catalog = T.catalog := hk.catalog.trans h.rel.catalog.1
  refine
    { registered := h.registered
      rel := ⟨?_, ?_, ?_, ⟨hcatalog, hcatalog⟩, rfl, rfl, hcompiled, hcompiled⟩
      functions := fun f hf => (h.functions f hf).trans_le hk.more
      stores := by rw [hk.stores]; exact h.stores
      instances := by rw [hk.instances]; exact h.instances
      handlers := by rw [hk.targets]; exact h.handlers
      hooks := ?_
      hookNames := h.hookNames }
  · rintro f f' ⟨hf, heq⟩
    cases heq
    rw [hk.functions _ (h.functions f hf)]
    exact h.rel.functions (f := f) ⟨hf, rfl⟩
  · rintro f f' ⟨hf, heq⟩ k
    cases heq
    exact Iff.rfl
  · intro id id' hid
    rw [hk.stores]
    exact h.rel.stores hid
  · intro x hx b hb
    rcases hk.hooks x hx b hb with hT | ⟨x0, hx0, hb0⟩
    · exact h.hookNames b hT
    · exact h.hooks x0 hx0 b hb0

namespace Mounting

variable {w1 : C.World}

lemma scene (h : w.Sealed (M.conduct T) K) : Scene T K w :=
  ⟨h.heap, h.state.functions, h.state.rel, h.state.registered, h.slots⟩

lemma unchanged_of_built (hb : Built T {a | ¬ w.heap.Holds a} slots w w1) {s : Slot}
    (hs : w.heap.Holds s.container.ref) : w.heap.Unchanged w1.heap s := by
  refine .of_eq ?_ ?_
  · intro o ho
    rw [ho] at hs
    exact hb.fields o fun hno => hno hs
  · intro l hl
    rw [hl] at hs
    exact hb.items l fun hno => hno hs

lemma sealed_of_built (h : w.Sealed (M.conduct T) K)
    (hb : Built T {a | ¬ w.heap.Holds a} slots w w1)
    (hslots : ∀ q ∈ w1.registry.subscribers, w1.heap.Holds q.1.container.ref)
    (hcompiled : T.Compiled w1.state) : w1.Sealed (M.conduct T) K := by
  refine ⟨⟨?_, ?_, ?_, ?_⟩, h.state.of_keeps hb.state hcompiled, ?_, hslots⟩
  · exact fun a ha => hb.heap.holds (h.heap.holds a ha)
  · intro o ho
    rw [hb.fields o fun hno => hno (h.heap.holds _ ho)]
    exact h.heap.fields o ho
  · intro l hl
    rw [hb.items l fun hno => hno (h.heap.holds _ hl)]
    exact h.heap.items l hl
  · intro i hi
    rw [hb.heap.hostObject i (h.heap.holds _ hi)]
    exact h.heap.hosts i hi
  · intro e c hc
    rw [effectBody_congr hb.effects] at hc
    exact h.effects hc

lemma built_of_quietly (hmakers : ∀ b ∈ T.makers, beh.Makes T b) (h : w.Sealed (M.conduct T) K)
    (hc : (M.conduct T).code K (.render r scope owner))
    (hr : beh.quietly T n (.render r scope owner) w = some (res, w1)) :
    ∃ slots, Built T {a | ¬ w.heap.Holds a} slots w w1 ∧ w1.Sealed (M.conduct T) K := by
  cases n with
  | zero => cases hr
  | succ n =>
    cases hc with
    | render hfree hscope howner =>
      obtain ⟨slots, hb, hslots, hcompiled⟩ := (scene h).built hmakers
        (Scene.plays_render hfree hscope howner) (quietly_succ hr).2
      exact ⟨slots, hb, sealed_of_built h hb hslots hcompiled⟩

end Mounting

/-! ## Accounts -/

def View.outcome (s : Settings) : Except RenderError String → Rendered
  | .ok html => .markup html
  | .error e => .diagnostic ⟨.render, e.message, failureFragment s .render e.message⟩

/-- A rendering that took place: of which instance, in which world, knowing which names, and what it
came to. -/
structure Account (C : Client) where
  self : C.Instance
  known : Set Ref
  before : C.World
  bound : Nat
  result : Except RenderError String
  after : C.World

/-- The target shows some markup of an instance. -/
structure Target.Shows (t : Target) (i : InstanceId) (data : ObjectId) (html : String) :
    Prop where
  content : t.content = (Binding.extract html).markup
  handlers : t.handlers = (Binding.extract html).bindings.map fun b => (b, handlerOf i data b)

lemma Target.Shows.bindings {t : Target} (h : t.Shows i data html) :
    t.bindings = (Binding.extract html).bindings := by
  rw [Target.bindings, h.handlers, List.map_map]
  exact List.map_id _

/-- The account tells why the target shows what it shows: nothing that the rendering looked at has
changed since, and the effect would hear of it. -/
structure Account.Explains (a : Account C) (beh : Behaviour C) (T : Terms C) (M : Mounting)
    (w : C.World) : Prop where
  scene : Scene T a.known a.before
  stores : ∀ id, .store id ∈ a.known → id.index < a.before.state.stores.size
  active : a.before.active = some M.effect
  pushed : a.before.state.pushed = .empty
  code : Code.Rel (Twins.same T a.known) a.self.code a.self.code
  run : beh.quietly T (a.bound + 1) a.self.code a.before = some (a.result, a.after)
  heap : a.before.heap.Extends w.heap
  tracked : ∀ s ∈ a.after.registry.tracked M.effect, s.container.ref ∈ a.known →
    s ∈ w.registry.tracked M.effect ∧ a.before.heap.Unchanged w.heap s
  later : a.before.state.Later w.state
  self : ∃ x, w.state.instances[M.self.index]? = some x ∧ x.code = a.self.code
  target : ∃ t, w.state.targets[M.target.index]? = some t ∧
    t.Shows M.self a.self.data (outcome w.state.settings a.result).html

namespace Account.Explains

variable {a : Account C}

/-- An account stands as long as what it depends on is unchanged, and the effect stays subscribed.
-/
lemma step (h : a.Explains beh T M w) (hext : w.heap.Extends w'.heap)
    (hheap : ∀ s ∈ w.registry.tracked M.effect, w.heap.Holds s.container.ref →
      w.heap.Unchanged w'.heap s)
    (hsubs : w.registry.tracked M.effect ⊆ w'.registry.tracked M.effect)
    (hleads : M.Leads w.state w'.state) : a.Explains beh T M w' := by
  refine { h with
      heap := h.heap.trans hext
      tracked := ?_
      later := h.later.trans hleads.toLater
      self := ?_
      target := ?_ }
  · intro s hs hknown
    obtain ⟨hsub, hsame⟩ := h.tracked s hs hknown
    have hheld : w.heap.Holds s.container.ref := h.heap.holds (h.scene.heap.holds _ hknown)
    exact ⟨hsubs hsub, hsame.trans (hheap s hsub hheld)⟩
  · obtain ⟨x, hx, hcode⟩ := h.self
    obtain ⟨x', hx', hstays⟩ := hleads.self hx
    exact ⟨x', hx', hstays.code.trans hcode⟩
  · obtain ⟨t, ht, hshows⟩ := h.target
    rw [hleads.target, hleads.settings]
    exact ⟨t, ht, hshows⟩

lemma again (h : a.Explains beh T M w) (hsealed : w.Sealed (M.conduct T) K)
    (hpushed : w.state.pushed = .empty) :
    Scene.Again T a.known (a.after.registry.tracked M.effect) a.before w where
  heap := h.heap
  functions := h.later.moreFunctions
  state := by
    have hlt : ∀ {f : FunctionId}, .function f ∈ a.known →
        f.index < a.before.state.functions.size := h.scene.functions _
    refine ⟨?_, ?_, ?_, ⟨h.scene.state.catalog.1, ?_⟩, h.later.settings, ?_,
      h.scene.state.compiled.1, hsealed.state.rel.compiled.1⟩
    · rintro f f' ⟨hf, heq⟩
      cases heq
      rw [h.later.functions _ (hlt hf)]
      exact h.scene.state.functions (f := f) ⟨hf, rfl⟩
    · rintro f f' ⟨hf, heq⟩ k
      cases heq
      have hmore := h.later.moreFunctions
      have hltf := hlt hf
      omega
    · rintro id id' ⟨hid, heq⟩
      cases heq
      rw [h.later.stores _ (h.stores _ hid)]
      exact h.scene.state.stores (show (Twins.same T a.known).rel (.store id) (.store id) from
        ⟨hid, rfl⟩)
    · exact h.later.catalog.trans h.scene.state.catalog.1
    · rw [hpushed, h.pushed]
  slots := hsealed.slots
  unchanged s hs hknown := (h.tracked s hs hknown).2

lemma replay (hmakers : ∀ b ∈ T.makers, beh.Makes T b) (h : a.Explains beh T M w)
    (hsealed : w.Sealed (M.conduct T) K) (hpushed : w.state.pushed = .empty)
    {x : C.Instance} (hx : x.code = a.self.code) :
    ∃ w', (semantics beh).caller (a.bound + 1) x.code w = some (a.result, w') ∧
      ViewState.Keeps T w.state w'.state := by
  have hplays : Scene.Plays T a.known (fun _ => Eq) (semantics beh a.self.code) := by
    cases h.code with
    | render hfree hscope howner => exact Scene.plays_render hfree hscope howner
  obtain ⟨D1, V1, slots, slots', res, w', hr, heq, halong⟩ := h.scene.replay hmakers hplays h.active
    (quietly_succ h.run).2 (h.again hsealed hpushed)
  cases heq subset_rfl
  refine ⟨w', ?_, halong.right.state⟩
  injection hx with hroutine hscope howner
  show (semantics beh).caller (a.bound + 1) (.render _ _ _) w = _
  rw [hroutine, hscope, howner]
  exact hr

end Account.Explains

/-! ## What is kept up -/

def Code.Renders : Code C → Prop
  | .render _ _ _ => True
  | _ => False

/-- The mounted instance is in place: its effect is there, and its effects may run. It knows of the
effect `m`, or of none. An instance whose mounted hooks have not run yet runs them inside its
effect, and there the effect may run once more. -/
structure Mounting.Sound (M : Mounting) (T : Terms C) (m : Option EffectId)
    (w : C.World) : Prop where
  limit : 2 ≤ w.maxDepth ∨ w.maxDepth = 1 ∧ T.hooks = ∅ ∧ w.state.Hookless
  body : w.effectBody M.effect = some (.refresh M.self)
  room : ∀ {e}, w.effectBody e = some (.refresh M.self) → w.effectDepth e < w.maxDepth
  self : ∃ x, w.state.instances[M.self.index]? = some x ∧ x.target = some M.target ∧
    (x.mountEffect = m ∨ x.mountEffect = none) ∧
    ∀ {e}, w.effectBody e = some (.refresh M.self) → w.effectDepth e ≤ x.mounted.toNat
  place : ∃ t, w.state.targets[M.target.index]? = some t

namespace Mounting.Sound

variable {w' : C.World}

lemma step (h : M.Sound T m w) (hmax : 2 ≤ w'.maxDepth ∨ w'.maxDepth = w.maxDepth)
    (hbody : w'.effectBody M.effect = w.effectBody M.effect)
    (hdepth : ∀ {e}, w'.effectBody e = some (.refresh M.self) →
      w.effectBody e = some (.refresh M.self) ∧ w'.effectDepth e ≤ w.effectDepth e)
    (hleads : M.Leads w.state w'.state)
    (hhooks : T.hooks = ∅ → w.state.Hookless → w'.state.Hookless) : M.Sound T m w' := by
  obtain ⟨x, hx, htarget, hmount, hd⟩ := h.self
  obtain ⟨x', hx', hstays⟩ := hleads.self hx
  refine ⟨?_, hbody.trans h.body, ?_, ⟨x', hx', hstays.target.trans htarget, ?_, ?_⟩, ?_⟩
  · rcases hmax with htwo | heq
    · exact .inl htwo
    · rw [heq]
      exact h.limit.imp_right fun ⟨hone, hT, hless⟩ => ⟨hone, hT, hhooks hT hless⟩
  · intro e he
    obtain ⟨hb, hle⟩ := hdepth he
    rcases hmax with htwo | heq
    · have hone : x.mounted.toNat ≤ 1 := Bool.toNat_le _
      have hde := hd hb
      omega
    · rw [heq]
      exact hle.trans_lt (h.room hb)
  · rcases hstays.mountEffect with heq | hnone
    · rw [heq]
      exact hmount
    · exact .inr hnone
  · intro e he
    obtain ⟨hb, hle⟩ := hdepth he
    refine (hle.trans (hd hb)).trans ?_
    cases hm : x.mounted with
    | false => exact Nat.zero_le _
    | true => rw [hstays.mounted hm]
  · rw [hleads.target]
    exact h.place

end Mounting.Sound

/-- The effects of a mounted instance are under watch. The one that keeps it up to date is fresh
when some account tells why the target shows what it shows; others come and go. -/
def Mounting.watch (M : Mounting) (beh : Behaviour C) (T : Terms C) (m : Option EffectId) :
    Watch C.signature where
  Watched c := c = .refresh M.self
  Quiet := Code.Renders
  Pinned e := e = M.effect
  Silent _ := True
  Good _ w := M.Sound T m w
  Fresh e w := e = M.effect → ∃ a : Account C, a.Explains beh T M w

/-- From the first world to the second, things were looked at and built, and nothing else happened
that matters to the mounted instance. -/
structure Mounting.Passes (M : Mounting) (T : Terms C) (w w' : C.World) : Prop where
  heap : w.heap.Extends w'.heap
  unchanged : ∀ {s : Slot}, w.heap.Holds s.container.ref → w.heap.Unchanged w'.heap s
  subscribers : ∀ {e s}, e ∈ w.registry.subscribersOf s → e ∈ w'.registry.subscribersOf s
  effects : w'.effects = w.effects
  maxDepth : w'.maxDepth = w.maxDepth
  leads : M.Leads w.state w'.state
  hookless : T.hooks = ∅ → w.state.Hookless → w'.state.Hookless

namespace Mounting.Passes

variable {w : C.World}

lemma of_built (hb : Built T {a | ¬ w.heap.Holds a} slots w w') : M.Passes T w w' where
  heap := hb.heap
  unchanged hs := unchanged_of_built hb hs
  subscribers hs := hb.subscribers hs
  effects := hb.effects
  maxDepth := hb.maxDepth
  leads := .of_keeps hb.state
  hookless hT hs := hb.state.hookless hT hs

lemma of_keeps (h : (M.conduct T).keeps K w.state y) : M.Passes T w { w with state := y } :=
  ⟨.refl _, fun _ => .of_eq (fun _ _ => rfl) fun _ _ => rfl, id, rfl, rfl, h.1, h.2.2⟩

lemma of_heap (hext : w.heap.Extends h)
    (hheap : ∀ {s : Slot}, w.heap.Holds s.container.ref → w.heap.Unchanged h s) :
    M.Passes T w { w with heap := h } :=
  ⟨hext, hheap, id, rfl, rfl, .refl M _, fun _ hs => hs⟩

section

variable (h : M.Passes T w w')
include h

lemma leave (e : EffectId) (before : Option EffectId) :
    M.Passes T (w.leave e before) (w'.leave e before) :=
  { h with
    effects := by
      simp only [World.leave, World.modifyDepth, h.effects] }

lemma good (hgood : M.Sound T m w) : M.Sound T m w' := by
  have hbody := effectBody_congr h.effects
  refine hgood.step (.inr h.maxDepth) (hbody _) ?_ h.leads h.hookless
  intro e he
  exact ⟨(hbody e).symm.trans he, le_of_eq (effectDepth_congr h.effects e)⟩

lemma fresh (hf : (M.watch beh T m).Fresh e w) : (M.watch beh T m).Fresh e w' := by
  intro he
  obtain ⟨a, ha⟩ := hf he
  exact ⟨a, ha.step h.heap (fun s _ hs => h.unchanged hs) (fun s hs => h.subscribers hs) h.leads⟩

lemma inv (hinv : (M.watch beh T m).Inv (M.conduct T) K P E w)
    (hsealed : w'.Sealed (M.conduct T) K) : (M.watch beh T m).Inv (M.conduct T) K P E w' := by
  refine hinv.step hsealed (h.good hinv.good) ?_ (fun _ _ => h.fresh) fun _ _ _ => h.subscribers
  exact fun {e} {c} he _ => (effectBody_congr h.effects e).symm.trans he

end

end Mounting.Passes

namespace Mounting

lemma good_like (hl : (M.watch beh T m).Like w w') (h : M.Sound T m w) : M.Sound T m w' := by
  refine h.step (.inr hl.maxDepth) (hl.pinned rfl) ?_ ?_ ?_
  · exact fun he => ⟨hl.body he rfl, hl.depth he rfl⟩
  · rw [hl.state]
    exact .refl M w.state
  · rw [hl.state]
    exact fun _ hs => hs

lemma fresh_like (hl : (M.watch beh T m).Like w w') (hb : w'.effectBody e = some c)
    (hc : c = .refresh M.self) (h : (M.watch beh T m).Fresh e w) :
    (M.watch beh T m).Fresh e w' := by
  rintro rfl
  obtain ⟨a, ha⟩ := h rfl
  refine ⟨a, ha.step (hl.heap ▸ .refl _) ?_ ?_ (hl.state ▸ .refl M _)⟩
  · intro s _ _
    rw [hl.heap]
    exact .of_eq (fun _ _ => rfl) fun _ _ => rfl
  · exact fun s hs => hl.subscribers hb hc hs

lemma fresh_change (u : Update) (hf : (M.watch beh T m).Fresh e w) :
    (M.watch beh T m).Fresh e { w with heap := (u.apply w.heap).2.1 } ∨
      ∃ s ∈ (u.apply w.heap).2.2, e ∈ w.registry.subscribersOf s := by
  by_cases htold : ∃ s ∈ (u.apply w.heap).2.2, e ∈ w.registry.subscribersOf s
  · exact .inr htold
  refine .inl ?_
  rintro rfl
  obtain ⟨a, ha⟩ := hf rfl
  refine ⟨a, ha.step (u.extends_apply w.heap) ?_ subset_rfl (.refl M w.state)⟩
  intro s hsub _
  exact u.unchanged_of_notMem w.heap fun hs => htold ⟨s, hs, hsub⟩

lemma upkeep (hmakers : ∀ b ∈ T.makers, beh.Makes T b)
    (hbodies : ∀ {b o K}, (M.conduct T).code K (.invoke b o) →
      (beh.invoke b o).Honest (M.conduct T) (fun K r => ∀ v, r = .ok v → v.Known K) K) :
    Upkeep (semantics beh) (beh.calmly T) (M.conduct T) (M.watch beh T m) where
  admits := admits_calmly
  honest := by
    intro c K hwatched hquiet hc
    cases c with
    | invoke b o => exact hbodies hc
    | render r scope owner => exact absurd trivial hquiet
    | refresh j => exact honest_refresh fun hj => hwatched (congrArg Code.refresh hj)
    | task t => exact hc.elim
  quiet := by
    intro n K P E w w' c r hquiet hc h hr
    cases c with
    | render routine scope owner =>
      cases n with
      | zero => cases hr
      | succ n =>
        obtain ⟨slots, hb, hsealed⟩ := built_of_quietly hmakers h.sealed hc hr
        exact ⟨(Passes.of_built hb).inv h hsealed, trivial⟩
    | invoke | refresh | task => exact hquiet.elim
  call := by
    rintro c hp rfl
    exact hp rfl
  within := by
    rintro e c hp rfl
    exact hp rfl
  clear := fun hp => hp
  dispose := fun hp he => hp he
  log := fun _ _ _ => trivial
  event := fun _ => trivial
  good_like := fun hl h => good_like hl h
  fresh_like := fun hl hb hc hf => fresh_like hl hb hc hf
  grow := by
    intro K K' w heap _ _ hext hheap hgood
    have hpasses : M.Passes T w { w with heap := heap } := .of_heap hext fun {s} => hheap s
    exact ⟨hpasses.good hgood, fun _ _ => hpasses.fresh⟩
  change := by
    intro K w u _ _ hgood
    refine ⟨hgood.step (.inr rfl) rfl (fun he => ⟨he, le_rfl⟩) (.refl M w.state) fun _ hs => hs, ?_⟩
    exact fun _ _ hf => fresh_change u hf
  modify := by
    intro K K' w y _ hkeeps _ _ hgood
    have hpasses : M.Passes T w { w with state := y } := .of_keeps hkeeps
    exact ⟨hpasses.good hgood, fun _ _ => hpasses.fresh⟩
  limit := by
    intro K w n hn hgood
    have hn : 2 ≤ n := hn
    refine ⟨hgood.step (.inl (hn.trans (le_max_left n 1))) rfl (fun he => ⟨he, le_rfl⟩)
      (.refl M w.state) fun _ hs => hs, ?_⟩
    intro e hf he
    obtain ⟨a, ha⟩ := hf he
    refine ⟨a, ha.step (.refl _) ?_ subset_rfl (.refl M w.state)⟩
    exact fun _ _ _ => .of_eq (fun _ _ => rfl) fun _ _ => rfl
  spawn := by
    intro K w c hp hgood
    have hlt := index_lt_of_effectBody hgood.body
    refine ⟨hgood.step (.inr rfl) ?_ ?_ (.refl M w.state) fun _ hs => hs, ?_⟩
    · rw [effectBody_newEffect, if_neg (by omega)]
    · intro e he
      rw [effectBody_newEffect] at he
      split at he
      · cases he
        exact absurd rfl hp
      · exact ⟨he, le_of_eq (effectDepth_newEffect w c e)⟩
    · intro e c' _ _ hf he
      obtain ⟨a, ha⟩ := hf he
      refine ⟨a, ha.step (.refl _) ?_ subset_rfl (.refl M w.state)⟩
      exact fun _ _ _ => .of_eq (fun _ _ => rfl) fun _ _ => rfl
  room := by
    rintro K w e c hgood hb rfl
    exact hgood.room hb

end Mounting

end LiveMarkup
