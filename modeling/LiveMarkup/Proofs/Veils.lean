import LiveMarkup.Proofs.Honesty
import LiveMarkup.Proofs.Routines

/-!
# Two runs that are told different messages

Two runs of one program are compared, in worlds whose application code fails for the same reasons
but words its failures differently. A `Veil` says what else the application may tell apart; all the
rest of the two worlds is equal, containers and dependencies included, except for what was logged.

`Veil.Covers` says of two programs that such runs end in the same way: both without a result, or
both with related results and in worlds that the veil still covers. Every operation keeps the veil
(`Veil.perform`), as long as the code it calls or stores belongs to instances and what it does to
the state leaves messages hidden.

Previews are left out: they are meant to show messages.
-/

namespace LiveMarkup

open World Option

/-! ## Outcomes -/

/-- Outcomes that differ in the wording of a failure at most. -/
inductive FailsAlike {ε α α' : Type} (kind : ε → String) (R : α → α' → Prop) :
    Except ε α → Except ε α' → Prop
  | ok (h : R a a') : FailsAlike kind R (.ok a) (.ok a')
  | error (h : kind e = kind e') : FailsAlike kind R (.error e) (.error e')

/-! ## Code of instances -/

mutual

/-- A fragment that belongs to an instance if it belongs to anybody. -/
inductive Fragment.Live : Fragment Owner → Prop
  | markup (html : String) : Fragment.Live (.markup html)
  | failure (message : String) : Fragment.Live (.failure message)
  | body (h : Owner.Live owner) : Fragment.Live (.body code scope owner)

/-- An owner that is an instance, and whose sections belong to instances. -/
inductive Owner.Live : Owner → Prop
  | live (h : ∀ e ∈ sections.entries, Fragment.Live e.2) : Owner.Live (.live data sections)

end

def Slots.Live (slots : Slots Owner) : Prop :=
  ∀ e ∈ slots.entries, e.2.Live

lemma Slots.live_empty : Slots.Live .empty := by
  intro e he
  cases he

def FunctionCode.Live {B : Type} : FunctionCode B → Prop
  | .slot slots => Slots.Live slots
  | .sectionOf f => f.Live
  | _ => True

def Code.Live : Code C → Prop
  | .render _ _ owner => owner.Live
  | _ => True

/-- A state in which messages are hidden and nothing belongs to a preview. -/
structure ViewState.Discreet (s : ViewState C) : Prop where
  hidden : s.settings.exposeMessages = false
  functions : ∀ {i : Nat} {code : FunctionCode C.Body}, s.functions[i]? = some code → code.Live
  instances : ∀ {i : Nat} {x : C.Instance}, s.instances[i]? = some x → Slots.Live x.sections

/-! ## The veil -/

/-- What two runs of an application may differ in besides messages: the application's own part of
the state, and the answers of its tasks. -/
structure Veil (C : Client) where
  state : C.State → C.State → Prop
  answer : C.Answer → C.Answer → Prop

namespace Veil

variable {V : Veil C} {α α' : Type}

/-- States that differ in the application's part at most, with messages hidden. -/
inductive States (V : Veil C) : ViewState C → ViewState C → Prop
  | intro {s : ViewState C} {client' : C.State} (hs : s.Discreet) (h : V.state s.client client') :
      States V s { s with client := client' }

/-- Worlds that differ in the application's part of the state and in the log at most. -/
structure Worlds (V : Veil C) (w w' : C.World) : Prop where
  heap : w'.heap = w.heap
  registry : w'.registry = w.registry
  effects : w'.effects = w.effects
  active : w'.active = w.active
  maxDepth : w'.maxDepth = w.maxDepth
  state : V.States w.state w'.state
  bodies : ∀ {e : EffectId} {c : Code C}, w.effectBody e = some c → c.Live

/-- Runs that end in the same way: both without a result, or both with related results and in
worlds under the veil. -/
abbrev Ends (V : Veil C) (R : α → α' → Prop) :
    Option (α × C.World) → Option (α' × C.World) → Prop :=
  Rel fun r r' => R r.1 r'.1 ∧ V.Worlds r.2 r'.2

def Replies (V : Veil C) : (c : Code C) → c.Reply → c.Reply → Prop
  | .invoke _ _ => FailsAlike ValueError.kind Eq
  | .render _ _ _ => FailsAlike RenderError.kind Eq
  | .refresh _ => Eq
  | .task _ => V.answer

/-- Callers under which the code of instances cannot be told apart. -/
def Callers (V : Veil C) (call call' : C.Caller) : Prop :=
  ∀ ⦃c : Code C⦄, c.Live → ∀ ⦃w w' : C.World⦄, V.Worlds w w' →
    V.Ends (V.Replies c) (call c w) (call' c w')

/-- A change of the state that leaves the application's part alone and stays discreet keeps the
veil. -/
lemma States.update {f : ViewState C → ViewState C}
    (hclient : ∀ s c, f { s with client := c } = { f s with client := c })
    (hf : ∀ {s : ViewState C}, s.Discreet → (f s).Discreet) (h : V.States s s') :
    V.States (f s) (f s') := by
  cases h with
  | @intro client' hs hc =>
    -- a state is itself with its own client, so `f` does not change the client
    have hkeep : f s = { f s with client := s.client } := hclient s s.client
    have hc' : V.state (f s).client client' := by
      rw [hkeep]
      exact hc
    rw [hclient s client']
    exact .intro (hf hs) hc'

/-! ## The machine under the veil -/

namespace Worlds

section

variable (h : V.Worlds w w')
include h

lemma effectBody_eq (e : EffectId) : w'.effectBody e = w.effectBody e :=
  effectBody_congr h.effects e

lemma effectDepth_eq (e : EffectId) : w'.effectDepth e = w.effectDepth e :=
  effectDepth_congr h.effects e

lemma write (lines lines' : List LogLine) : V.Worlds (w.write lines) (w'.write lines') := { h with }

lemma withHeap (g : Heap) : V.Worlds { w with heap := g } { w' with heap := g } :=
  { h with heap := rfl }

lemma withActive (e : Option EffectId) :
    V.Worlds { w with active := e } { w' with active := e } :=
  { h with active := rfl }

lemma trackAll (slots : List Slot) :
    V.Worlds (w.trackAll slots) (w'.trackAll slots) where
  heap := by simp [h.heap]
  registry := registry_trackAll_congr h.registry h.active slots
  effects := by simp [h.effects]
  active := by simp [h.active]
  maxDepth := by simp [h.maxDepth]
  state := by simpa using h.state
  bodies := by
    intro e c he
    rw [effectBody_congr (effects_trackAll w slots)] at he
    exact h.bodies he

lemma enter (e : EffectId) : V.Worlds (w.enter e) (w'.enter e) where
  heap := by simp [h.heap]
  registry := by simp [h.registry]
  effects := by simp [modifyDepth, h.effects]
  active := rfl
  maxDepth := by simp [h.maxDepth]
  state := by simpa using h.state
  bodies := by
    intro e' c he
    rw [effectBody_enter] at he
    exact h.bodies he

lemma leave (e : EffectId) (before : Option EffectId) :
    V.Worlds (w.leave e before) (w'.leave e before) where
  heap := h.heap
  registry := h.registry
  effects := by simp [World.leave, World.modifyDepth, h.effects]
  active := rfl
  maxDepth := h.maxDepth
  state := h.state
  bodies := by
    intro e' c he
    rw [effectBody_leave] at he
    exact h.bodies he

lemma newEffect (hc : c.Live) : V.Worlds (w.newEffect c).2 (w'.newEffect c).2 where
  heap := h.heap
  registry := h.registry
  effects := by simp [World.newEffect, h.effects]
  active := h.active
  maxDepth := h.maxDepth
  state := h.state
  bodies := by
    intro e c' he
    rw [effectBody_newEffect] at he
    split at he
    · cases he
      exact hc
    · exact h.bodies he

lemma dispose (e : EffectId) : V.Worlds (w.dispose e) (w'.dispose e) := by
  have hbodies : ∀ {e' : EffectId} {c : Code C}, (w.dispose e).effectBody e' = some c → c.Live := by
    intro e' c he
    rw [effectBody_dispose] at he
    split at he
    · cases he
    · exact h.bodies he
  -- an effect that has ended already is ended in both worlds
  unfold World.dispose at hbodies ⊢
  rw [h.effectBody_eq e]
  cases hb : w.effectBody e with
  | none => exact h
  | some c =>
    rw [hb] at hbodies
    exact { h with
        registry := by simp [h.registry]
        effects := by simp [h.effects]
        bodies := hbodies }

section

variable (hcall : V.Callers call call')
include hcall

lemma runWithin (e : Option EffectId) (hc : c.Live) :
    V.Ends (V.Replies c) (runWithin call e c w) (runWithin call' e c w') := by
  have hends := hcall hc (h.withActive e)
  unfold World.runWithin
  rw [h.active]
  generalize call c _ = x, call' c _ = x' at hends
  cases hends with
  | none => exact .none
  | some hr => exact .some ⟨hr.1, hr.2.withActive _⟩

lemma runEffect (e : EffectId) : Rel V.Worlds (runEffect call e w) (runEffect call' e w') := by
  cases hb : w.effectBody e with
  | none =>
    have hb' : w'.effectBody e = none := by rw [h.effectBody_eq, hb]
    rw [runEffect_of_gone call hb, runEffect_of_gone call' hb']
    exact .some h
  | some c =>
    have hb' : w'.effectBody e = some c := by rw [h.effectBody_eq, hb]
    have hdepth := h.effectDepth_eq e
    have hmax := h.maxDepth
    -- depths and limit agree, so both runs refuse the effect or neither does
    by_cases hd : w.effectDepth e < w.maxDepth
    · rw [runEffect_of_room call hb hd, runEffect_of_room call' hb' (by omega),
        h.active]
      have hends := hcall (h.bodies hb) (h.enter e)
      generalize call c _ = x, call' c _ = x' at hends
      cases hends with
      | none => exact .none
      | some hr => exact .some (hr.2.leave e _)
    · rw [runEffect_of_deep call hb (by omega),
        runEffect_of_deep call' hb' (by omega)]
      exact .some (h.write _ _)

lemma runEffects (es : List EffectId) :
    Rel V.Worlds (runEffects call es w) (runEffects call' es w') := by
  induction es generalizing w w' with
  | nil => exact .some h
  | cons e rest ih =>
    have he := h.runEffect hcall e
    unfold runEffects
    generalize World.runEffect call e w = x, World.runEffect call' e w' = x' at he
    cases he with
    | none => exact .none
    | some he => exact ih he

lemma trigger (s : Slot) : Rel V.Worlds (trigger call s w) (trigger call' s w') := by
  unfold World.trigger
  rw [h.registry]
  exact h.runEffects hcall _

lemma triggerAll (slots : List Slot) :
    Rel V.Worlds (triggerAll call slots w) (triggerAll call' slots w') := by
  induction slots generalizing w w' with
  | nil => exact .some h
  | cons s rest ih =>
    have hs := h.trigger hcall s
    unfold triggerAll
    generalize World.trigger call s w = x, World.trigger call' s w' = x' at hs
    cases hs with
    | none => exact .none
    | some hs => exact ih hs

end

end

end Worlds

lemma Ends.ofWorlds (h : Rel V.Worlds x x') (a : α) :
    V.Ends Eq (x.map fun w => (a, w)) (x'.map fun w => (a, w)) := by
  cases h with
  | none => exact .none
  | some h => exact .some ⟨rfl, h⟩

/-! ## Operations -/

/-- Operations that keep the veil: called and stored code belongs to instances, and the state
changes discreetly. -/
def Permits (V : Veil C) : C.Op → Prop
  | .call c => c.Live
  | .within _ c => c.Live
  | .spawn c => c.Live
  | .modify f => ∀ {s s' : ViewState C}, V.States s s' → V.States (f s) (f s')
  | _ => True

/-- What an operation may be answered with in the two runs. -/
def Answers (V : Veil C) : (op : C.Op) → op.Reply → op.Reply → Prop
  | .call c => V.Replies c
  | .within _ c => V.Replies c
  | .get => V.States
  | .modify _ => V.States
  | _ => Eq

lemma perform (hcall : V.Callers call call') (hw : V.Worlds w w') (hop : V.Permits op) :
    V.Ends (V.Answers op) (op.perform call w) (op.perform call' w') := by
  cases op with
  | read q =>
    show V.Ends Eq (Option.map _ (q.answer w.heap)) (Option.map _ (q.answer w'.heap))
    rw [hw.heap]
    cases q.answer w.heap with
    | none => exact .none
    | some r => exact .some ⟨rfl, hw.trackAll r.2⟩
  | peek q =>
    show V.Ends Eq (Option.map _ (q.answer w.heap)) (Option.map _ (q.answer w'.heap))
    rw [hw.heap]
    cases q.answer w.heap with
    | none => exact .none
    | some r => exact .some ⟨rfl, hw⟩
  | write u =>
    -- heaps agree, so the same slots are triggered, and in the same order
    have hrun := (hw.withHeap (u.apply w.heap).2.1).triggerAll hcall (u.apply w.heap).2.2
    simp only [Op.perform, hw.heap]
    exact Ends.ofWorlds hrun _
  | newObject fields | newList items | newHost x =>
    simp only [Op.perform, hw.heap]
    exact .some ⟨rfl, hw.withHeap _⟩
  | call c => exact hcall hop hw
  | within e c => exact hw.runWithin hcall e hop
  | spawn c =>
    have hname : (w'.newEffect c).1 = (w.newEffect c).1 := by
      simp [newEffect, hw.effects]
    have hrun := (hw.newEffect hop).runEffect hcall (w.newEffect c).1
    show V.Ends Eq _ (Option.map (fun v => ((w'.newEffect c).1, v))
      (runEffect call' (w'.newEffect c).1 (w'.newEffect c).2))
    rw [hname]
    exact Ends.ofWorlds hrun _
  | rerun e => exact Ends.ofWorlds (hw.runEffect hcall e) ()
  | dispose e => exact .some ⟨rfl, hw.dispose e⟩
  | isDisposed e => exact .some ⟨congrArg isNone (hw.effectBody_eq e).symm, hw⟩
  | active => exact .some ⟨hw.active.symm, hw⟩
  | track s => exact .some ⟨rfl, hw.trackAll [s]⟩
  | trigger s => exact Ends.ofWorlds (hw.trigger hcall s) ()
  | subscriberCount s =>
    exact .some ⟨congrArg (fun r => (Registry.subscribersOf r s).length) hw.registry.symm, hw⟩
  | hasTarget c => exact .some ⟨congrArg (Registry.hasTarget · c) hw.registry.symm, hw⟩
  | dependencyCount e =>
    exact .some ⟨congrArg (fun r => (Registry.dependenciesOf r e).length) hw.registry.symm, hw⟩
  | clearDependencies e =>
    exact .some ⟨rfl, { hw with registry := by simp [hw.registry] }⟩
  | maxDepth => exact .some ⟨hw.maxDepth.symm, hw⟩
  | setMaxDepth n => exact .some ⟨rfl, { hw with maxDepth := rfl }⟩
  | log lines => exact .some ⟨rfl, hw.write lines lines⟩
  | get => exact .some ⟨hw.state, hw⟩
  | modify f => exact .some ⟨hw.state, { hw with state := hop hw.state }⟩

/-! ## Programs -/

/-- Two programs whose runs end in the same way under the veil, whatever code they call. -/
def Covers (V : Veil C) (R : α → α' → Prop) (p : View C α) (p' : View C α') : Prop :=
  ∀ ⦃call call' : C.Caller⦄, V.Callers call call' →
    ∀ ⦃w w' : C.World⦄, V.Worlds w w' → V.Ends R (p.run call w) (p'.run call' w')

namespace Covers

lemma pure (h : R a a') : V.Covers R (Pure.pure a : View C α) (Pure.pure a') := by
  intro call call' _ w w' hw
  exact .some ⟨h, hw⟩

lemma bind (hp : V.Covers R p p') (hf : ∀ a a', R a a' → V.Covers Q (f a) (f' a')) :
    V.Covers Q (p >>= f) (p' >>= f') := by
  intro call call' hcall w w' hw
  have hends := hp hcall hw
  rw [Program.run_bind, Program.run_bind]
  generalize p.run call w = x, p'.run call' w' = x' at hends
  cases hends with
  | none => exact .none
  | some hr => exact hf _ _ hr.1 hcall hr.2

lemma imp (hp : V.Covers R p p') (h : ∀ a a', R a a' → R' a a') : V.Covers R' p p' := by
  intro call call' hcall w w' hw
  have hends := hp hcall hw
  generalize p.run call w = x, p'.run call' w' = x' at hends
  cases hends with
  | none => exact .none
  | some hr => exact .some ⟨h _ _ hr.1, hr.2⟩

lemma perform (op : C.Op) (hop : V.Permits op) :
    V.Covers (V.Answers op) (Program.perform op) (Program.perform op) := by
  intro call call' hcall w w' hw
  rw [Program.run_perform, Program.run_perform]
  exact Veil.perform hcall hw hop

lemma bindEq (hp : V.Covers Eq p p) (hf : ∀ a, V.Covers Q (f a) (f' a)) :
    V.Covers Q (p >>= f) (p >>= f') := by
  refine hp.bind fun a a' h => ?_
  rw [← h]
  exact hf a

end Covers

end Veil

end LiveMarkup
