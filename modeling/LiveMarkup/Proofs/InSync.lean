import LiveMarkup.Proofs.Refreshing

/-!
# Mounted output stays in sync

Whenever no effect runs, the target of a mounted instance shows what rendering the instance would
give now, diagnostics included, and its bindings are those of that markup. This holds from the
moment the instance is mounted, while the application changes data, commits to stores, and users
click and type, as long as templates do nothing but look and build.

The limit on how deep effects run inside themselves matters: mounted hooks run inside the effect of
the instance, so what they change reaches the target only if the effect may run once more inside
itself.
-/

namespace LiveMarkup

open Option World View
open Catalog (not_has_empty)

variable {T : Terms C} {beh : Behaviour C} {M : Mounting} {K : Set Ref}

open Program

/-! ## Mounting -/

namespace View

variable {call : C.Caller}

/-- Mounting runs a new effect, which the instance knows from then on; the one it knew before
ends. -/
lemma mountTarget_cases (hr : (mountTarget i t).run call w = some ((), w')) :
    ∃ w1, runEffect call ⟨w.effects.size⟩ (newEffect
        { w with state := changed i (fun x => { x with target := some t }) w.state }
        (.refresh i)).2 = some w1 ∧
      ∀ {x t' s}, w1.state.instances[i.index]? = some x → x.target = some t' →
        s = changed i (fun x => { x with mountEffect := some ⟨w.effects.size⟩ }) w1.state →
        (x.mountEffect = none ∧ w' = { w1 with state := s }) ∨
          ∃ previous, x.mountEffect = some previous ∧
            w' = dispose { w1 with state := s } previous := by
  rw [mountTarget, run_bind, modifyInstance, run_modify, bind_some, run_bind, run_perform] at hr
  obtain ⟨⟨e, w1⟩, hspawn, hr⟩ := bind_eq_some_iff.mp hr
  obtain ⟨w1, hrun, ⟨⟩⟩ := map_eq_some_iff.mp hspawn
  refine ⟨w1, hrun, ?_⟩
  rintro x t' s hx ht rfl
  rw [run_bind, run_instance?] at hr
  simp only [bind_some, hx, ht] at hr
  rw [run_bind, modifyInstance, run_modify, bind_some] at hr
  cases hprevious : x.mountEffect with
  | none =>
    simp only [hprevious] at hr
    exact .inl ⟨rfl, (congrArg Prod.snd (some.inj hr)).symm⟩
  | some previous =>
    simp only [hprevious] at hr
    exact .inr ⟨previous, rfl, (congrArg Prod.snd (some.inj hr)).symm⟩

end View

lemma Mounting.Orderly.modifySelf (hs : M.Orderly T K s)
    (hf : ∀ {x}, M.Minds T K M.self x → M.Minds T K M.self (f x)) :
    M.Orderly T K (changed M.self f s) := by
  refine { hs with rel := { hs.rel with }, instances := ?_ }
  intro j y hy
  replace hy : (s.instances.modify M.self.index f)[j.index]? = some y := hy
  rw [Array.getElem?_modify] at hy
  split at hy
  · rename_i hj
    obtain ⟨x, hx, rfl⟩ := map_eq_some_iff.mp hy
    obtain rfl : M.self = j := congrArg InstanceId.mk hj
    exact hf (hs.instances hx)
  · exact hs.instances hy

/-- All is ready to mount the instance: what can be reached is known, no other instance uses the
target, the effect is the one that comes next, and no effect of the instance runs. -/
structure Mounting.Ready (M : Mounting) (T : Terms C) (K : Set Ref) (w : C.World) :
    Prop where
  sealed : w.Sealed (M.conduct T) K
  /-- Effects may run once inside themselves, or there are no hooks that could make them. -/
  limit : 2 ≤ w.maxDepth ∨ w.maxDepth = 1 ∧ T.hooks = ∅ ∧ w.state.Hookless
  effect : M.effect = ⟨w.effects.size⟩
  self : ∃ x, w.state.instances[M.self.index]? = some x ∧ x.mountEffect ≠ some M.effect
  idle : ∀ {e}, w.effectBody e = some (.refresh M.self) → w.effectDepth e = 0
  place : ∃ t, w.state.targets[M.target.index]? = some t

namespace Mounting

variable {w : C.World}

lemma inv_newEffect (h : M.Ready T K w) (hx : w.state.instances[M.self.index]? = some x) :
    (M.watch beh T x.mountEffect).Inv (M.conduct T) K [] [M.effect] (newEffect
      { w with
        state := changed M.self (fun x => { x with target := some M.target }) w.state }
      (.refresh M.self)).2 := by
  have hx' := getElem?_modify_self hx fun x : C.Instance => { x with target := some M.target }
  have hdepth : ∀ {e}, (newEffect { w with
      state := changed M.self (fun x => { x with target := some M.target }) w.state }
      (.refresh M.self)).2.effectBody e = some (.refresh M.self) →
      (newEffect { w with
        state := changed M.self (fun x => { x with target := some M.target }) w.state }
        (.refresh M.self)).2.effectDepth e = 0 := by
    intro e he
    rw [effectBody_newEffect] at he
    rw [effectDepth_newEffect]
    split at he
    · rename_i hnew
      exact effectDepth_of_size_le (le_of_eq hnew.symm)
    · exact h.idle he
  refine ⟨⟨h.sealed.heap, h.sealed.state.modifySelf ?_, ?_, h.sealed.slots⟩,
    ⟨h.limit, ?_, ?_, ⟨_, hx', rfl, .inl rfl, ?_⟩, h.place⟩, ?_⟩
  · exact fun hminds => { hminds with
      known := ⟨{ hminds.known.rel with }, hminds.known.methods⟩
      target := fun _ => rfl }
  · intro e c hb
    rw [effectBody_newEffect] at hb
    split at hb
    · cases hb
      trivial
    · exact h.sealed.effects hb
  · rw [effectBody_newEffect, if_pos (by rw [h.effect])]
  · intro e he
    rw [hdepth he]
    rcases h.limit with htwo | ⟨hone, -⟩
    · exact Nat.lt_of_lt_of_le Nat.zero_lt_two htwo
    · exact hone ▸ Nat.zero_lt_one
  · intro e he
    rw [hdepth he]
    exact Nat.zero_le _
  · intro e c _ _
    by_cases he : e = M.effect
    · exact .inr (.inr (List.mem_singleton.mpr he))
    · exact .inl fun heq => absurd heq he

/-- From now on the instance knows of the effect that keeps it up to date. -/
lemma inv_adopted (h : (M.watch beh T m).Inv (M.conduct T) K P E w) :
    (M.watch beh T (some M.effect)).Inv (M.conduct T) K P E
      { w with
        state := changed M.self (fun x => { x with mountEffect := some M.effect }) w.state } := by
  obtain ⟨x, hx, htarget, -, hd⟩ := h.good.self
  have hx' := getElem?_modify_self hx fun x : C.Instance => { x with mountEffect := some M.effect }
  refine ⟨⟨h.sealed.heap, h.sealed.state.modifySelf ?_, h.sealed.effects, h.sealed.slots⟩,
    ⟨h.good.limit, h.good.body, h.good.room, ⟨_, hx', htarget, .inl rfl, hd⟩, h.good.place⟩, ?_⟩
  · exact fun hminds => { hminds with
      known := ⟨{ hminds.known.rel with }, hminds.known.methods⟩
      effect := fun _ => rfl }
  · intro e c hb hc
    rcases h.due hb hc with hf | hs | hE
    · refine .inl fun heq => ?_
      obtain ⟨a, ha⟩ := hf heq
      obtain ⟨y, hy, hcode⟩ := ha.self
      obtain rfl : x = y := some.inj (hx.symm.trans hy)
      exact ⟨a, { ha with later := { ha.later with }, self := ⟨_, hx', hcode⟩ }⟩
    · exact .inr (.inl hs)
    · exact .inr (.inr hE)

lemma inv_mounted (hmakers : ∀ b ∈ T.makers, beh.Makes T b) (hbodies : ∀ {b o K}, (M.conduct T).code
    K (.invoke b o) → (beh.invoke b o).Honest (M.conduct T) (fun K r => ∀ v, r = .ok v → v.Known K)
      K) (h : M.Ready T K w)
    (hr : (mountTarget M.self M.target).run (beh.calmly T n) w = some ((), w')) :
    ∃ K', K ⊆ K' ∧ (M.watch beh T (some M.effect)).Inv (M.conduct T) K' [] [] w' := by
  obtain ⟨x0, hx0, hne⟩ := h.self
  obtain ⟨w1, hrun, hw'⟩ := mountTarget_cases hr
  rw [← h.effect] at hrun hw'
  obtain ⟨K', hK, h1⟩ := (upkeep hmakers hbodies).runEffect
    ((upkeep hmakers hbodies).behaves (refreshes hmakers hbodies) n) (inv_newEffect h hx0) hrun
  obtain ⟨x, hx, htarget, hmount, -⟩ := h1.good.self
  have h2 := inv_adopted h1
  rcases hw' hx htarget rfl with ⟨-, rfl⟩ | ⟨previous, hprevious, rfl⟩
  · exact ⟨K', hK, h2⟩
  · have hother : previous ≠ M.effect := by
      rintro rfl
      rcases hmount with hold | hnone
      · exact hne (hold.symm.trans hprevious)
      · rw [hnone] at hprevious
        cases hprevious
    exact ⟨K', hK, h2.like (upkeep hmakers hbodies) (.dispose hother) (h2.sealed.dispose previous)⟩

/-- An account tells what a rendering comes to, and that the target shows it. -/
lemma shows_rendered (hmakers : ∀ b ∈ T.makers, beh.Makes T b)
    (hsealed : w.Sealed (M.conduct T) K) {a : Account C} (ha : a.Explains beh T M w)
    (hx : w.state.instances[M.self.index]? = some x) (htarget : x.target = some M.target) :
    ∃ t rendered w', w.state.targets[M.target.index]? = some t ∧
      (renderTop M.self).run ((semantics beh).caller (a.bound + 1)) w =
        some (rendered, w') ∧ t.Shows M.self a.self.data rendered.html := by
  have hreset := hsealed.state.resetStacks
  have hsealed' := sealed_tidy hsealed hreset
  have hpasses : M.Passes T w { w with state := { w.state with pushed := .empty } } :=
    .of_keeps hreset.keeps
  have ha' : a.Explains beh T M { w with state := { w.state with pushed := .empty } } :=
    ha.step hpasses.heap (fun s _ hs => hpasses.unchanged hs) (fun s hs => hs) hpasses.leads
  obtain ⟨y, hy, hcode⟩ := ha.self
  obtain rfl : x = y := some.inj (hx.symm.trans hy)
  obtain ⟨w1, hcall, hkeeps⟩ := ha'.replay hmakers hsealed' rfl hcode
  have hx1 : w1.state.instances[M.self.index]? = some x := by
    rw [hkeeps.instances]
    exact hx
  obtain ⟨t, ht, hshows⟩ := ha.target
  refine ⟨t, _, _, ht, run_renderTop hx hcall hx1 htarget, ?_⟩
  rw [hkeeps.settings]
  exact hshows

/-- Mounted output stays in sync. After an instance was mounted on a target that no other instance
uses, let the application go on within the conduct: change data, commit to stores, let users click
and type. Whenever no effect runs, the target shows the markup that rendering the instance would
give at that moment, be it a diagnostic, and its bindings are those of that markup. -/
theorem target_shows_current_rendering {α : Type} (hmakers : ∀ b ∈ T.makers, beh.Makes T b)
    (hbodies : ∀ {b o K}, (M.conduct T).code K (.invoke b o) →
      (beh.invoke b o).Honest (M.conduct T) (fun K r => ∀ v, r = .ok v → v.Known K) K)
    {w₀ w₁ : C.World} (hready : M.Ready T K w₀) {bound : Nat}
    (hmount : (View.mountTarget M.self M.target).run (beh.calmly T bound) w₀ = some ((), w₁))
    {p : View C α} {post : Set Ref → α → Prop}
    (hp : ∀ {K'}, K ⊆ K' → p.Honest (M.conduct T) post K')
    (hreach : p.Reaches (View.semantics beh) (beh.calmly T) (fun c => ¬ c.Renders) w₁ w) :
    ∃ t bound rendered w', w.state.targets[M.target.index]? = some t ∧
      (View.renderTop M.self).run ((View.semantics beh).caller bound) w = some (rendered, w') ∧
      t.content = (Binding.extract rendered.html).markup ∧
      t.bindings = (Binding.extract rendered.html).bindings := by
  obtain ⟨K₁, hK₁, h₁⟩ := inv_mounted hmakers hbodies hready hmount
  obtain ⟨K₂, -, h⟩ := (upkeep hmakers hbodies).reaches (refreshes hmakers hbodies) (fun _ hc => hc)
    hreach (hp hK₁) h₁
  obtain ⟨x, hx, htarget, -⟩ := h.good.self
  have hfresh : (M.watch beh T (some M.effect)).Fresh M.effect w := by
    rcases h.due h.good.body rfl with hf | ⟨s, hs, -⟩ | hE
    · exact hf
    · cases hs
    · cases hE
  obtain ⟨a, ha⟩ := hfresh rfl
  obtain ⟨t, rendered, w', ht, hrun, hshows⟩ := shows_rendered hmakers h.sealed ha hx htarget
  exact ⟨t, _, rendered, w', ht, hrun, hshows.content, hshows.bindings⟩

end Mounting

/-! ## A lamp -/

/-- Runs all code as it says, but templates without any calls. -/
def Behaviour.plainly (beh : Behaviour C) : Nat → C.Caller
  | 0 => fun _ _ => none
  | n + 1 => fun
    | .render r scope owner, w =>
      (semantics beh (.render r scope owner)).run (fun _ _ => none) w
    | c, w => (semantics beh c).run (beh.plainly n) w

lemma Behaviour.plainly_le (n : Nat) : (beh.plainly n).Le (beh.calmly T n) := by
  induction n with
  | zero => exact fun _ _ _ h => nomatch h
  | succ n ih =>
    intro c w r hr
    cases c with
    | render routine scope owner =>
      have hnone : Caller.Le (fun _ _ => none) (beh.quietly T n) := by
        intro _ _ _ h
        cases h
      exact (Behaviour.quietly_of_allows (c := .render routine scope owner) trivial n w).trans
        (run_mono hnone hr)
    | invoke | refresh | task => exact run_mono ih hr

namespace Lamp

def client : Client where
  Body := Unit
  Task := Empty
  Answer := Unit
  State := Unit

/-- Its code switches the lamp on, whatever the occasion. -/
def behaviour : Behaviour client where
  invoke _ _ := do
    Program.write (.set ⟨0⟩ "on" (.text "yes"))
    return .ok .undefined
  task t := nomatch t

/-- The code mentions the data of the lamp. -/
def terms : Terms client where
  names _ := {.object ⟨0⟩}
  makers := ∅
  hooks := ∅
  catalog := {}

def routine : Routine :=
  ⟨[.text "<p ", .click "press", .text ">", .echo (.name "on"), .text "</p><input ",
    .model "on" (.name "on"), .text ">"]⟩

def lamp : Instance Unit where
  definition := { name := "lamp", source := .routine routine, methods := .ofList [("press", ())] }
  data := ⟨0⟩
  globals := .empty
  routine := routine
  hooks := ⟨0⟩
  sections := .empty

/-- A lamp that switches itself on when it is mounted, a store that switches it on, and a target. -/
def world (limit : Nat) : World client.signature where
  heap := { objects := #[.ofList [("on", .text "no")], .empty] }
  maxDepth := limit
  state :=
    { hookSets := #[{ mounted := [()] }]
      instances := #[lamp]
      stores := #[{ state := ⟨1⟩, mutations := .ofList [("switch", ())] }]
      targets := #[{}]
      client := () }

def mounting : Mounting where
  self := ⟨0⟩
  target := ⟨0⟩
  effect := ⟨0⟩

def known : Set Ref :=
  {.object ⟨0⟩, .object ⟨1⟩, .store ⟨0⟩}

lemma fixes (b : Unit) (hK : .object ⟨0⟩ ∈ K) : (Twins.same terms K).Fixes b := by
  rintro a rfl
  exact ⟨hK, rfl⟩

lemma data_known : .object ⟨0⟩ ∈ known := .inl rfl

lemma lamp_known : lamp.Known terms known where
  rel := ⟨rfl, rfl, ⟨data_known, rfl⟩, .nil, .nil⟩
  methods _ _ := fixes _ data_known

lemma registered : (Twins.same terms known).Open := by
  refine ⟨⟨?_, ?_, ?_, ?_⟩, trivial, ?_, .nil, nofun⟩
  · exact fun h => absurd h not_has_empty
  · exact fun h => absurd h not_has_empty
  · exact fun h => absurd h not_has_empty
  · exact fun h => absurd h not_has_empty
  · exact fun h => absurd h not_has_empty

lemma orderly (limit : Nat) : mounting.Orderly terms known (world limit).state where
  registered := registered
  rel := by
    refine ⟨?_, ?_, ?_, ⟨rfl, rfl⟩, rfl, rfl, ?_⟩
    · rintro f f' ⟨h | h | h, -⟩ <;> cases h
    · rintro f f' ⟨h | h | h, -⟩ <;> cases h
    · rintro id id' ⟨h | h | h, heq⟩ <;> cases h
      cases heq
      exact .some ⟨⟨.inr (.inl rfl), rfl⟩, rfl, fun _ _ => fixes _ data_known⟩
    · exact ⟨fun h => absurd h not_has_empty, fun h => absurd h not_has_empty⟩
  functions := by rintro f (h | h | h) <;> cases h
  stores := by
    rintro id (h | h | h) <;> cases h
    exact Nat.zero_lt_one
  instances := by
    rintro ⟨j⟩ x hx
    cases j with
    | zero =>
      cases hx
      exact ⟨lamp_known, nofun, nofun, fun _ => rfl⟩
    | succ j => cases hx
  handlers := by
    rintro ⟨t⟩ x hx
    cases t with
    | zero =>
      cases hx
      exact nofun
    | succ t => cases hx
  hooks _ _ b _ := fixes b data_known
  hookNames b _ := fixes b data_known

lemma sealed (limit : Nat) : (world limit).Sealed (mounting.conduct terms) known where
  heap := by
    refine ⟨?_, ?_, ?_, ?_⟩
    · rintro a (rfl | rfl | rfl)
      · exact Nat.zero_lt_two
      · exact Nat.one_lt_two
      · trivial
    · rintro o (h | h | h) <;> cases h
      · rintro e (_ | ⟨_, ⟨⟩⟩)
        trivial
      · exact nofun
    · rintro l (h | h | h) <;> cases h
    · rintro i (h | h | h) <;> cases h
  state := orderly limit
  effects := nofun
  slots := nofun

lemma ready (hlimit : 2 ≤ limit) : mounting.Ready terms known (world limit) where
  sealed := sealed limit
  limit := .inl hlimit
  effect := rfl
  self := ⟨lamp, rfl, nofun⟩
  idle := nofun
  place := ⟨_, rfl⟩

lemma write_honest (hK : .object ⟨0⟩ ∈ K) (s : String) :
    (write (.set ⟨0⟩ "on" (.text s)) : View client Unit).Honest (mounting.conduct terms)
      (fun _ _ => True) K := by
  refine (honest_perform (.write (.set ⟨0⟩ "on" (.text s))) trivial ⟨hK, ?_⟩).bind
    fun _ _ _ _ => .done trivial
  rintro v ⟨⟩
  trivial

lemma bodies (hc : (mounting.conduct terms).code K (.invoke b o)) :
    (behaviour.invoke b o).Honest (mounting.conduct terms)
      (fun K r => ∀ v, r = .ok v → v.Known K) K := by
  refine (write_honest (hc.1 _ rfl).1 "yes").bind fun _ _ _ _ => .done ?_
  rintro v ⟨⟩
  trivial

/-- The lamp is written off, switched on by the store, dimmed in its field and switched on by a
click. -/
def evening : View client Unit := do
  Program.write (.set ⟨0⟩ "on" (.text "no"))
  let _ ← commit ⟨0⟩ "switch" .undefined
  let _ ← dispatch ⟨0⟩ .model 0 (.text "dim")
  let _ ← dispatch ⟨0⟩ .click 0 .undefined

lemma evening_honest (hK : known ⊆ K) :
    evening.Honest (mounting.conduct terms) (fun _ _ => True) K := by
  refine (write_honest (hK data_known) "no").bind fun _ K1 hK1 _ => ?_
  have hstore : .store ⟨0⟩ ∈ K1 := hK1 (hK (.inr (.inr rfl)))
  have hundefined : ∀ {K}, Value.undefined.Known K := trivial
  have hdim : ∀ {K}, (Value.text "dim").Known K := trivial
  refine (honest_commit hstore "switch" hundefined).bind fun _ K2 _ _ => ?_
  refine (honest_dispatch ⟨0⟩ .model 0 hdim).bind fun _ K3 _ _ => ?_
  exact (honest_dispatch ⟨0⟩ .click 0 hundefined).bind fun _ _ _ _ => .done trivial

def lit : String :=
  "<p>yes</p><input value=\"yes\">"

theorem target_shows_current_rendering_evening :
    ∃ w₁ w t bound rendered w', (View.mountTarget ⟨0⟩ ⟨0⟩).run (behaviour.calmly terms 4) (world 2) =
        some ((), w₁) ∧
      evening.run (behaviour.calmly terms 4) w₁ = some ((), w) ∧
      w.state.targets[0]? = some t ∧ t.content = lit ∧
      (View.renderTop ⟨0⟩).run ((View.semantics behaviour).caller bound) w = some (rendered, w') ∧
      t.content = (Binding.extract rendered.html).markup ∧
      t.bindings = (Binding.extract rendered.html).bindings := by
  have hlit : (((mountTarget ⟨0⟩ ⟨0⟩).run (behaviour.plainly 4) (world 2)).bind fun r =>
      evening.run (behaviour.plainly 4) r.2).map (fun r => r.2.state.targets[0]?.map (·.content)) =
        some (some lit) := by
    decide +kernel
  obtain ⟨⟨⟨⟩, w⟩, hrun, hcontent⟩ := map_eq_some_iff.mp hlit
  obtain ⟨⟨⟨⟩, w₁⟩, hmount, hevening⟩ := bind_eq_some_iff.mp hrun
  have hcalm : (behaviour.plainly 4).Le (behaviour.calmly terms 4) := Behaviour.plainly_le 4
  have hmount := run_mono hcalm hmount
  have hevening := run_mono hcalm hevening
  obtain ⟨t, bound, rendered, w', ht, hrender, hshown⟩ :=
    Mounting.target_shows_current_rendering (T := terms) (fun _ hb => hb.elim) bodies
      (ready le_rfl) hmount evening_honest (.of_run hevening)
  rw [show w.state.targets[0]? = some t from ht] at hcontent
  exact ⟨w₁, w, t, bound, rendered, w', hmount, hevening, ht, some.inj hcontent, hrender,
    hshown⟩

/-- Where effects must not run inside themselves at all, what the mounted hook of the lamp changes
does not reach the target. -/
theorem limit_one_hides_hook :
    (world 1).Sealed (mounting.conduct terms) known ∧
    ∃ w₁ t rendered w', (View.mountTarget ⟨0⟩ ⟨0⟩).run (behaviour.calmly terms 4) (world 1) =
        some ((), w₁) ∧
      w₁.state.targets[0]? = some t ∧
      (View.renderTop ⟨0⟩).run ((View.semantics behaviour).caller 4) w₁ = some (rendered, w') ∧
      t.content ≠ (Binding.extract rendered.html).markup := by
  refine ⟨sealed 1, ?_⟩
  have hdark : (((mountTarget ⟨0⟩ ⟨0⟩).run (behaviour.plainly 4) (world 1)).bind fun r =>
      ((renderTop ⟨0⟩).run ((semantics behaviour).caller 4) r.2).map fun q =>
        r.2.state.targets[0]?.map fun t =>
          decide (t.content = (Binding.extract q.1.html).markup)) = some (some false) := by
    decide +kernel
  obtain ⟨⟨⟨⟩, w₁⟩, hmount, hdark⟩ := bind_eq_some_iff.mp hdark
  obtain ⟨⟨rendered, w'⟩, hrender, hdark⟩ := map_eq_some_iff.mp hdark
  obtain ⟨t, ht, hne⟩ := map_eq_some_iff.mp hdark
  exact ⟨w₁, t, rendered, w', run_mono (Behaviour.plainly_le 4) hmount, ht, hrender,
    of_decide_eq_false hne⟩

end Lamp

end LiveMarkup
