import LiveMarkup.Proofs.Interface
import LiveMarkup.Proofs.Provenance

/-!
# Phases in the life of an instance

An instance is mounted and unmounted, perhaps many times, and has hooks for both occasions, the two
phases of its life. A flag for each phase says whether its hooks have been set going.

Very little of what the view layer does has to do with that. Most operations are calm,
`Op.IsCalm`: they leave every instance on its target, detach no handlers, raise no flag, run no hook
and create no mount effect. What is left happens in few places, and a program is orderly,
`View.Orderly`, if it comes to them nowhere else: refreshing an instance and saluting it afterwards,
mounting it, and unmounting it. All code of an application that keeps to the interface is orderly,
`View.orderly_semantics`.
-/

namespace LiveMarkup

open View Array

variable {p : View C α} {s : ViewState C}

/-- The two occasions in the life of an instance on which hooks run. -/
inductive Phase
  | mounted
  | unmounted
deriving DecidableEq

namespace Phase

/-- Whether an instance has come to a phase, so that its hooks for it have been set going. -/
def flag : Phase → Instance B → Bool
  | .mounted, x => x.mounted
  | .unmounted, x => x.unmounted

def mark : Phase → Instance B → Instance B
  | .mounted, x => { x with mounted := true }
  | .unmounted, x => { x with unmounted := true }

def hooks : Phase → HookSet B → List B
  | .mounted, h => h.mounted
  | .unmounted, h => h.unmounted

@[simp]
lemma flag_mark (φ : Phase) (x : Instance B) : φ.flag (φ.mark x) = true := by
  cases φ <;> rfl

lemma flag_mark_of_ne {φ ψ : Phase} (h : φ ≠ ψ) (x : Instance B) :
    φ.flag (ψ.mark x) = φ.flag x := by
  cases φ <;> cases ψ <;> first | rfl | exact absurd rfl h

@[simp]
lemma target_mark (φ : Phase) (x : Instance B) : (φ.mark x).target = x.target := by
  cases φ <;> rfl

end Phase

namespace ViewState

section

variable (s)

def roused (φ : Phase) (i : InstanceId) : Bool :=
  s.instances[i.index]?.any φ.flag

def hooksFor (φ : Phase) (i : InstanceId) : List C.Body :=
  s.instances[i.index]?.elim [] fun x => φ.hooks (s.hookSets[x.hooks.index]?.getD {})

lemma roused_changed (φ : Phase) (i j : InstanceId) (f : C.Instance → C.Instance) :
    (changed i f s).roused φ j =
      if j = i then s.instances[j.index]?.any (fun x => φ.flag (f x)) else s.roused φ j := by
  rw [roused, instances_changed]
  split
  · rw [Option.any_map]
  · rfl

lemma roused_changed_target (φ : Phase) (i j : InstanceId)
    (t : Option TargetId) :
    (changed i (fun x => { x with target := t }) s).roused φ j = s.roused φ j := by
  rw [roused_changed]
  split
  · cases φ <;> rfl
  · rfl

def handlersOf (t : TargetId) : List (Binding × Handler) :=
  s.targets[t.index]?.elim [] Target.handlers

end

/-- All instances are on the targets that they were on, and have come to no further phase. A target
that is not written to has the handlers that it had. -/
structure Calm (s s' : ViewState C) : Prop where
  targetOf : ∀ i, s'.targetOf i = s.targetOf i
  roused : ∀ φ i, s'.roused φ i = s.roused φ i
  handlersOf : ∀ t, s'.writesTo t = s.writesTo t → s'.handlersOf t = s.handlersOf t

namespace Calm

lemma of_targets (hi : s'.instances = s.instances)
    (ht : ∀ t, s'.writesTo t = s.writesTo t → s'.handlersOf t = s.handlersOf t) : s.Calm s' := by
  refine ⟨fun i => ?_, fun φ i => ?_, ht⟩
  · rw [ViewState.targetOf, hi]
    rfl
  · rw [ViewState.roused, hi]
    rfl

lemma of_eq (hi : s'.instances = s.instances) (ht : s'.targets = s.targets) : s.Calm s' := by
  refine .of_targets hi fun t _ => ?_
  rw [ViewState.handlersOf, ht]
  rfl

lemma refl (s : ViewState C) : s.Calm s := .of_eq rfl rfl

lemma newTarget (hi : s'.instances = s.instances)
    (ht : s'.targets = s.targets.push {}) : s.Calm s' := by
  refine .of_targets hi fun t _ => ?_
  rw [ViewState.handlersOf, ViewState.handlersOf, ht, Array.getElem?_push]
  split
  · rename_i hlast
    rw [hlast, getElem?_eq_none (Nat.le_refl _)]
    rfl
  · rfl

section

variable (s)

lemma written (i : InstanceId) (data : ObjectId) (html : String)
    (t : TargetId) : s.Calm (written i data html t s) := by
  refine .of_targets rfl fun t' hsame => ?_
  rw [ViewState.handlersOf, View.written, Array.getElem?_modify]
  split
  · rename_i hindex
    rw [ViewState.writesTo, ViewState.writesTo, View.written, Array.getElem?_modify,
      if_pos hindex] at hsame
    cases hy : s.targets[t'.index]? with
    | none => rw [ViewState.handlersOf, hy]; rfl
    | some y =>
      rw [hy] at hsame
      exact absurd hsame (Nat.succ_ne_self y.writes)
  · rfl

lemma changed (i : InstanceId) (htarget : ∀ x, (f x).target = x.target)
    (hflag : ∀ φ x, Phase.flag φ (f x) = φ.flag x) : s.Calm (View.changed i f s) := by
  refine ⟨fun j => ?_, fun φ j => ?_, fun _ _ => rfl⟩
  · by_cases hj : j = i
    · subst hj
      rw [targetOf_changed_self, ViewState.targetOf]
      simp only [htarget]
    · exact targetOf_changed_of_ne s i f hj
  · rw [roused_changed]
    split
    · simp only [hflag]
      rfl
    · rfl

/-- A new instance is on no target and has come to no phase, like one that does not exist. -/
lemma push (hx : x.IsNew) : s.Calm { s with instances := s.instances.push x } := by
  have hlast : ∀ i : InstanceId, (s.instances.push x)[i.index]? =
      if i.index = s.instances.size then some x else s.instances[i.index]? := fun i =>
    getElem?_push
  refine ⟨fun i => ?_, fun φ i => ?_, fun _ _ => rfl⟩
  · simp only [ViewState.targetOf, hlast]
    split
    · rename_i hi
      rw [hi, getElem?_eq_none (Nat.le_refl _)]
      exact hx.target
    · rfl
  · simp only [ViewState.roused, hlast]
    split
    · rename_i hi
      rw [hi, getElem?_eq_none (Nat.le_refl _)]
      cases φ with
      | mounted => exact hx.mounted
      | unmounted => exact hx.unmounted
    · rfl

end

end Calm

end ViewState

/-! ## Calm operations -/

/-- Operations that have nothing to do with the life of instances. -/
def Op.IsCalm : C.Op → Prop
  | .call c | .within _ c | .spawn c => Code.IsFree c
  | .modify f => (∀ s, ViewState.Calm s (f s)) ∧ MindsStacks f
  | _ => True

lemma Op.IsFree.isCalm {op : C.Op} (h : op.IsFree) : op.IsCalm := by
  cases op with
  | modify f => exact ⟨fun s => .of_eq (h.1 s).1 (h.1 s).2, h.2⟩
  | call | within | spawn => exact h
  | _ => trivial

abbrev View.Calm (p : View C α) : Prop :=
  Program.Only Op.IsCalm p

lemma Program.Only.bind_returns {p : Program S α} {f : α → Program S β} (hp : p.Only P)
    (hR : p.Returns R) (hf : ∀ a, R a → (f a).Only P) : (p >>= f).Only P := by
  induction p with
  | done a => exact hf a hR
  | step op next ih => exact .step hp.1 fun r => ih r (hp.2 r) (hR r)

namespace View

lemma calm_modest (hp : p.Modest) : p.Calm := hp.imp fun _ h => h.isFree.isCalm

section

variable (i : InstanceId)

lemma calm_instance? : Calm (C := C) (instance? i) := .bind (.perform trivial) fun _ => .done _

lemma calm_modify {f : ViewState C → ViewState C} (hf : ∀ s, ViewState.Calm s (f s))
    (hstacks : ∀ s, (f s).pushed = s.pushed) : Calm (modify f) :=
  .bind (.perform ⟨hf, .keeps hstacks⟩) fun _ => .done _

lemma calm_modifyInstance {f : C.Instance → C.Instance}
    (htarget : ∀ x, (f x).target = x.target) (hflag : ∀ φ x, Phase.flag φ (f x) = φ.flag x) :
    Calm (modifyInstance i f) :=
  calm_modify (fun s => .changed s i htarget hflag) fun _ => rfl

lemma calm_dismiss (e : Option EffectId) : Calm (C := C) (dismiss i e) := by
  cases e with
  | none => exact .done ()
  | some e =>
    refine .bind (calm_modifyInstance i (fun _ => rfl) fun φ _ => ?_) fun _ => .perform trivial
    cases φ <;> rfl

lemma calm_endMountEffect : Calm (C := C) (endMountEffect i) := by
  exact (calm_instance? i).bind fun _ => calm_dismiss i _

lemma calm_retire : Calm (C := C) (retire i) := by
  refine (calm_instance? i).bind fun x => ?_
  split
  · split
    · exact .done ()
    · exact calm_endMountEffect i
  · exact .done ()

lemma calm_release : Calm (C := C) (release i) := by
  refine .bind (calm_modifyInstance i (fun _ => rfl) fun φ _ => ?_) fun _ => calm_retire i
  cases φ <;> rfl

lemma calm_newTarget (selector : String) : Calm (C := C) (newTarget selector) :=
  .bind (.perform ⟨fun _ => .newTarget rfl rfl, .keeps fun _ => rfl⟩) fun _ => .done _

lemma calm_create (d : Definition C.Body) (o : InstanceOptions) :
    Calm (construct d o >>= keep) := by
  refine (calm_modest (modest_construct d o)).bind_returns (returns_construct d o) fun x hx => ?_
  exact .bind (.perform ⟨fun s => .push s hx, .keeps fun _ => rfl⟩) fun _ => .done _

lemma calm_post (data : ObjectId) (rendered : Rendered)
    (t : Option TargetId) : Calm (C := C) (post i data rendered t) := by
  cases t with
  | none => exact .done _
  | some t =>
    exact .bind (calm_modify (fun s => .written s i data rendered.html t) fun _ => rfl) fun _ =>
      .done _

lemma calm_found (x : Option C.Instance) : Calm (found i x) := by
  cases x with
  | none => exact .done _
  | some x =>
    refine (calm_modest (modest_renderInstance x)).bind fun r => ?_
    refine Program.Only.bind ?_ fun s => calm_post i x.data s.1 s.2
    exact (calm_modest (modest_settle _ _ r)).bind fun _ => (calm_instance? i).bind fun _ =>
      .done _

lemma calm_renderTop : Calm (C := C) (renderTop i) := by
  rw [renderTop_eq]
  refine (calm_modest modest_resetStacks).bind fun _ => ?_
  exact (calm_instance? i).bind fun x => calm_found i x

lemma calm_adopt (e : EffectId) (t : Option TargetId)
    (previous : Option EffectId) : Calm (C := C) (adopt i e t previous) := by
  cases t with
  | none => exact .perform trivial
  | some t =>
    refine .bind (calm_modifyInstance i (fun _ => rfl) fun φ _ => ?_) fun _ => ?_
    · cases φ <;> rfl
    · cases previous with
      | none => exact .done ()
      | some e' => exact .perform trivial

end

end View

/-! ## Orderly programs -/

namespace View

/-- Noting that an instance has come to a phase, and running its hooks for it. -/
def rouse (φ : Phase) (i : InstanceId) (x : C.Instance) : View C Unit := do
  modifyInstance i φ.mark
  let hooks ← hooksOf x.hooks
  runHooks i (φ.hooks hooks)

/-- Rousing an instance that has not come to a phase before. -/
def salute (φ : Phase) (i : InstanceId) : Option C.Instance → View C Unit
  | none => return ()
  | some x => if φ.flag x then return () else rouse φ i x

section

variable (i : InstanceId)

lemma afterRender_markup (html : String) :
    afterRender (C := C) i (.markup html) = instance? i >>= salute .mounted i := by
  rw [afterRender]
  refine congrArg _ (funext fun x => ?_)
  cases x <;> rfl

lemma farewell_eq : farewell (C := C) i = salute .unmounted i := by
  funext x
  cases x <;> rfl

def takeOff : View C (Option C.Instance) :=
  instance? i >>= leave i

lemma unmount_bind (f : Unit → View C α) :
    unmount i >>= f = instance? i >>= fun x => dismiss i (x.bind (·.mountEffect)) >>= fun _ =>
      takeOff i >>= fun x => farewell i x >>= f := by
  rw [unmount_eq, detach, endMountEffect_eq]
  simp only [bind_assoc]
  rfl

end

/-- A program that has to do with the life of instances only where it should: it mounts and unmounts
them, it creates mount effects for those of which `M` holds, and it refreshes and then salutes those
of which `R` holds. In the midst of refreshing or unmounting an instance, `H` holds of the program
that it began with. -/
inductive Orderly (M R : InstanceId → Prop) (H : View C α → Prop) : View C α → Prop
  | done (a : α) : Orderly M R H (.done a)
  | step {op : C.Op} {next : op.Reply → View C α} (hop : op.IsCalm)
      (hnext : ∀ r, Orderly M R H (next r)) : Orderly M R H (.step op next)
  | refreshing (hi : R i) (hf : ∀ r, Orderly M R H (f r)) :
      Orderly M R H (renderTop i >>= fun r => afterRender i r >>= f)
  | refreshed (r : Rendered) (hi : R i) (h : H (renderTop i >>= fun r => afterRender i r >>= f))
      (hf : ∀ r, Orderly M R H (f r)) : Orderly M R H (afterRender i r >>= f)
  | mountTarget (i : InstanceId) (t : TargetId) (hf : ∀ r, Orderly M R H (f r)) :
      Orderly M R H (mountTarget i t >>= f)
  | spawn (hi : M i) (hnext : ∀ e, Orderly M R H (next e)) :
      Orderly M R H (.step (.spawn (.refresh i)) next)
  | unmount (i : InstanceId) (hf : ∀ r, Orderly M R H (f r)) : Orderly M R H (unmount i >>= f)
  | takeOff (h : H (unmount i >>= f)) (hf : ∀ r, Orderly M R H (f r)) :
      Orderly M R H (takeOff i >>= fun x => farewell i x >>= f)

namespace Orderly

variable {H : View C α → Prop}

lemma mono (h : p.Orderly M R H) (hM : ∀ i, M i → M' i) (hR : ∀ i, R i → R' i)
    (hH : ∀ q, H q → H' q) : p.Orderly M' R' H' := by
  induction h with
  | done a => exact .done a
  | step hop _ ih => exact .step hop ih
  | refreshing hi _ ih => exact .refreshing (hR _ hi) ih
  | refreshed r hi h _ ih => exact .refreshed r (hR _ hi) (hH _ h) ih
  | mountTarget i t _ ih => exact .mountTarget i t ih
  | spawn hi _ ih => exact .spawn (hM _ hi) ih
  | unmount i _ ih => exact .unmount i ih
  | takeOff h _ ih => exact .takeOff (hH _ h) ih

lemma bind {p : View C β} (hp : p.Orderly M R fun _ => False) (hf : ∀ b, (f b).Orderly M R H) :
    (p >>= f).Orderly M R H := by
  induction hp with
  | done b => exact hf b
  | step hop _ ih => exact .step hop ih
  | refreshing hi _ ih =>
    simp only [bind_assoc]
    exact .refreshing hi ih
  | refreshed _ _ h | takeOff h => exact h.elim
  | mountTarget i t _ ih =>
    rw [bind_assoc]
    exact .mountTarget i t ih
  | spawn hi _ ih => exact .spawn hi ih
  | unmount i _ ih =>
    rw [bind_assoc]
    exact .unmount i ih

lemma of_calm (hp : p.Calm) : p.Orderly M R H := by
  induction p with
  | done a => exact .done a
  | step op next ih => exact .step hp.1 fun r => ih r (hp.2 r)

end Orderly

section Semantics

lemma orderly_busy (i : InstanceId) (g : Nat → Nat) {f : Unit → View C α}
    (hf : ∀ r, (f r).Orderly M R H) :
    Orderly M R H (modifyInstance i (fun x => { x with busy := g x.busy }) >>= f) := by
  refine .bind (.of_calm (calm_modifyInstance i (fun _ => rfl) fun φ _ => ?_)) hf
  cases φ <;> rfl

lemma orderly_during (i : InstanceId) {p : View C β}
    (hp : ∀ g : β → View C α, (∀ b, (g b).Orderly M R H) → (p >>= g).Orderly M R H)
    (hf : ∀ b, (f b).Orderly M R H) : Orderly M R H (during i p >>= f) := by
  rw [during]
  simp only [bind_assoc]
  refine orderly_busy i (· + 1) fun _ => hp _ fun b => orderly_busy i (· - 1) fun _ => ?_
  exact .bind (.of_calm (calm_retire i)) fun _ => hf b

lemma KeepsTo.orderly (h : p.Abides) : p.Orderly M R H := by
  induction h with
  | done a => exact .done a
  | step hop _ ih => exact .step hop.isCalm fun r => ih r
  | create d o _ ih => exact .bind (.of_calm (calm_create d o)) fun i => ih i
  | newTarget selector _ ih => exact .bind (.of_calm (calm_newTarget selector)) fun t => ih t
  | mountTarget i t _ ih => exact .mountTarget i t fun r => ih r
  | unmount i _ ih => exact .unmount i fun r => ih r
  | renderTop i _ ih => exact .bind (.of_calm (calm_renderTop i)) fun r => ih r
  | release i _ ih => exact .bind (.of_calm (calm_release i)) fun r => ih r
  | during i _ _ ihp ih =>
    exact orderly_during i (fun _ hg => (ihp (H := fun _ => False)).bind hg) fun a => ih a

lemma orderly_refresh {H : View C Unit → Prop} (hi : R i) : (refresh i).Orderly M R H := by
  refine .bind (.of_calm (calm_instance? i)) fun x => ?_
  split
  · split
    · rw [← bind_pure (during i _)]
      refine orderly_during i (fun g hg => ?_) .done
      rw [bind_assoc]
      exact .refreshing hi hg
    · exact .done ()
  · exact .done ()

lemma orderly_semantics (hb : b.Abides) {M R : InstanceId → Prop} {H : View C c.Reply → Prop}
    (hc : ∀ i, c = .refresh i → R i) : Orderly M R H (semantics b c) := by
  cases c with
  | invoke body occasion => exact (hb.invoke body occasion).orderly
  | render r scope owner => exact .of_calm (calm_modest (modest_routine b r scope owner))
  | refresh i => exact orderly_refresh (hc i rfl)
  | task t => exact (hb.task t).orderly

end Semantics

end View

end LiveMarkup
