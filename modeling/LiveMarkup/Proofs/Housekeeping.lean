import LiveMarkup.Proofs.Custody

/-!
# Mounting and unmounting are careful

The view layer keeps its mount effects in custody: creating instances, mounting, refreshing,
unmounting and letting go of them are all careful programs. An application that leaves instances and
targets to the view layer, `View.Uses`, cannot spoil that, whatever else it does and in whatever
order: `View.careful_semantics`.
-/

namespace LiveMarkup

open World Array ViewState

variable {C : Client}

open Program

/-- Two states of an instance: mounted on the same target, with the same effect, over the same
data. -/
structure Instance.Resembles {B : Type} (x x' : Instance B) : Prop where
  target : x.target = x'.target
  mountEffect : x.mountEffect = x'.mountEffect
  data : x.data = x'.data

/-- An instance that has not been mounted yet. -/
structure Instance.IsNew {B : Type} (x : Instance B) : Prop where
  target : x.target = none
  mountEffect : x.mountEffect = none
  mounted : x.mounted = false
  unmounted : x.unmounted = false

namespace View

/-! ## The parts of rendering, mounting and unmounting -/

section

variable (i)

def dismiss : Option EffectId → View C Unit
  | some e => do
    modifyInstance i fun x => { x with mountEffect := none }
    perform (.dispose e)
  | none => return ()

lemma endMountEffect_eq :
    endMountEffect (C := C) i = instance? i >>= fun x => dismiss i (x.bind (·.mountEffect)) := by
  rw [endMountEffect]
  refine congrArg _ (funext fun x => ?_)
  cases x.bind (·.mountEffect) <;> rfl

/-- Settling what has been rendered, and looking where the instance is mounted by then. -/
def settled (r : Except RenderError String) :
    View C (Rendered × Option TargetId) := do
  let rendered ← settle .render .renderFailed r
  let now ← instance? i
  return (rendered, now.bind (·.target))

/-- Writing what has been rendered to the target of the instance, if it has one. -/
def post (data : ObjectId) (rendered : Rendered) :
    Option TargetId → View C Rendered
  | some t => do
    writeTarget i data rendered.html t
    return rendered
  | none => return rendered

/-- The second part of rendering at top level, once the template has been rendered. -/
def publish (data : ObjectId) (r : Except RenderError String) :
    View C Rendered := do
  let s ← settled i r
  post i data s.1 s.2

def found : Option C.Instance → View C Rendered
  | none => return .markup ""
  | some x => renderInstance x >>= publish i x.data

/-- Rendering at top level empties the stacks and looks up the instance. -/
lemma renderTop_eq :
    renderTop (C := C) i = resetStacks >>= fun _ => instance? i >>= found i := by
  rw [renderTop]
  refine congrArg _ (funext fun _ => congrArg _ (funext fun x => ?_))
  cases x with
  | none => rfl
  | some x =>
    dsimp only [found]
    refine congrArg _ (funext fun r => ?_)
    rw [publish, settled, bind_assoc]
    refine congrArg _ (funext fun rendered => ?_)
    rw [bind_assoc]
    refine congrArg _ (funext fun now => ?_)
    rw [pure_bind]
    cases now.bind (·.target) <;> rfl

/-- Storing a new effect with an instance, and ending the one that was stored before. -/
def store (e : EffectId) (previous : Option EffectId) : View C Unit := do
  modifyInstance i fun x => { x with mountEffect := some e }
  match previous with
  | some e' => perform (.dispose e')
  | none => return ()

/-- What becomes of the effect of a mount: it is stored, unless the instance is mounted no more. -/
def adopt (e : EffectId) : Option TargetId → Option EffectId → View C Unit
  | none, _ => perform (.dispose e)
  | some _, previous => store i e previous

lemma mountTarget_eq (t : TargetId) :
    mountTarget i t = modifyInstance i (fun x => { x with target := some t }) >>= fun _ =>
      perform (S := C.signature) (.spawn (.refresh i)) >>= fun e =>
        instance? i >>= fun x => adopt i e (x.bind (·.target)) (x.bind (·.mountEffect)) := by
  refine congrArg _ (funext fun _ => congrArg _ (funext fun e => congrArg _ (funext fun x => ?_)))
  cases x.bind (·.target) with
  | none => rfl
  | some t => cases x.bind (·.mountEffect) <;> rfl

def vacate : Option TargetId → View C Unit
  | some t => clearHandlers t
  | none => pure ()

def leave : Option C.Instance → View C (Option C.Instance)
  | none => return none
  | some x => do
    modifyInstance i fun x => { x with target := none }
    vacate x.target
    return some x

/-- The first part of unmounting: the effect ends, the instance is taken off its target, and the
target loses its handlers. -/
def detach : View C (Option C.Instance) := do
  endMountEffect i
  let x ← instance? i
  leave i x

/-- The second part of unmounting: the unmounted hooks run if they have not. -/
def farewell : Option C.Instance → View C Unit
  | none => return ()
  | some x =>
    if x.unmounted then return ()
    else do
      modifyInstance i fun x => { x with unmounted := true }
      let hooks ← hooksOf x.hooks
      runHooks i hooks.unmounted

lemma unmount_eq : unmount (C := C) i = detach i >>= farewell i := by
  rw [unmount, detach, bind_assoc]
  refine congrArg _ (funext fun _ => ?_)
  rw [bind_assoc]
  refine congrArg _ (funext fun x => ?_)
  cases x with
  | none => rfl
  | some x =>
    dsimp only [leave]
    rw [bind_assoc]
    refine congrArg _ (funext fun _ => ?_)
    cases x.target <;> rfl

end

/-! ## Instances -/

variable {f : C.Instance → C.Instance} {Q : Unit → C.World → Prop}

lemma careful_modifyInstance (i : InstanceId) (hf : ∀ x, (f x).Resembles x) :
    Careful (modifyInstance i f) := by
  refine ⟨fun {Y w Q} hw hQ => ?_⟩
  have hmoves : w.state.Moves (changed i f w.state) := moves_changed _ _ fun x => (hf x).data
  have htarget : (changed i f w.state).targetOf i = w.state.targetOf i := by
    rw [targetOf_changed_self]
    simp only [(hf _).target, targetOf]
  have heffect : (changed i f w.state).effectOf i = w.state.effectOf i := by
    rw [effectOf_changed_self]
    simp only [(hf _).mountEffect, effectOf]
  refine secures_exchange (g := fun _ => .done ()) hmoves (hQ () _ hmoves.persists ?_)
  refine hw.changed rfl id (fun _ => id) (fun hb => ?_) fun ht => ?_
  · exact (hw.stored hb).imp_left heffect.trans
  · exact heffect.trans (hw.mounted (htarget.symm.trans ht))

lemma secures_endMountEffect (hw : w.InCustody Y)
    (hQ : ∀ w', w.state.Persists w'.state → w'.InCustody Y → w'.state.effectOf i = none → Q () w') :
    (endMountEffect i).Secures Y Q w := by
  rw [endMountEffect_eq]
  refine secures_bind.mpr (secures_get ?_)
  change Secures Y Q (dismiss i (w.state.effectOf i)) w
  cases he : w.state.effectOf i with
  | none => exact hQ w (.refl _) hw he
  | some e =>
    have hmoves : w.state.Moves (changed i (fun x => { x with mountEffect := none }) w.state) :=
      moves_changed _ _ fun _ => rfl
    have hgone : (changed i (fun x => { x with mountEffect := none }) w.state).effectOf i =
        none := by
      rw [effectOf_changed_self]
      cases w.state.instances[i.index]? <;> rfl
    refine secures_modify hmoves (secures_dispose (g := .done) ?_)
    have hstate := state_dispose
      { w with state := changed i (fun x => { x with mountEffect := none }) w.state } e
    refine hQ _ (hstate ▸ hmoves.persists) ?_ (hstate ▸ hgone)
    refine hw.changed hstate (effectBody_of_dispose e) (fun _ => id) (fun hb => ?_)
      fun _ => hstate ▸ hgone
    -- the one that was stored here has just ended
    have hbefore := effectBody_of_dispose e hb
    refine .inr ((hw.stored hbefore).resolve_left fun hstored => ?_)
    exact ne_of_dispose hb (Option.some.inj (hstored.symm.trans he))

section

variable (i)

lemma careful_endMountEffect : Careful (C := C) (endMountEffect i) :=
  ⟨fun hw hQ => secures_endMountEffect hw fun w' hp hw' _ => hQ () w' hp hw'⟩

lemma returns_construct (d : Definition C.Body) (o : InstanceOptions) :
    (construct d o).Returns Instance.IsNew := by
  refine .bind fun hooks => .bind fun previous => ?_
  -- where the data comes from does not matter
  have hrest : ∀ data, Returns Instance.IsNew (assemble d o hooks previous data) := fun data =>
    .bind fun _ => .bind fun _ => .bind fun _ => .bind fun _ => .bind fun _ =>
      ⟨rfl, rfl, rfl, rfl⟩
  split
  · exact hrest _
  · exact .bind hrest

lemma careful_create (d : Definition C.Body) (o : InstanceOptions) :
    Careful (construct d o >>= keep) := by
  refine ⟨fun {Y w Q} hw hQ => ?_⟩
  refine secures_bind.mpr (((modest_construct d o).imp fun _ => Op.IsModest.isOrdinary).secures
    (returns_construct d o) hw fun x w1 hx hp hw1 => ?_)
  -- the new instance is mounted nowhere and has no effect, like an instance that does not exist
  have hlast : ∀ j : Nat, (w1.state.instances.push x)[j]? =
      if j = w1.state.instances.size then some x else w1.state.instances[j]? := fun j =>
    getElem?_push
  have htargets : ∀ j, targetOf { w1.state with instances := w1.state.instances.push x } j =
      w1.state.targetOf j := by
    intro j
    simp only [targetOf, hlast]
    split
    · rename_i hj
      rw [hj, getElem?_eq_none (Nat.le_refl _)]
      exact hx.target
    · rfl
  have heffects : ∀ j, effectOf { w1.state with instances := w1.state.instances.push x } j =
      w1.state.effectOf j := by
    intro j
    simp only [effectOf, hlast]
    split
    · rename_i hj
      rw [hj, getElem?_eq_none (Nat.le_refl _)]
      exact hx.mountEffect
    · rfl
  have hpersists : w1.state.Persists { w1.state with instances := w1.state.instances.push x } := by
    intro j y hy
    refine ⟨y, ?_, rfl⟩
    have hlt : j ≠ w1.state.instances.size := by
      rintro rfl
      rw [getElem?_eq_none (Nat.le_refl _)] at hy
      cases hy
    exact (hlast j).trans ((if_neg hlt).trans hy)
  refine secures_exchange ⟨hpersists, fun _ => .leaves _⟩ ?_
  refine hQ _ _ (hp.trans hpersists) ⟨?_, ?_⟩
  · intro e j hb
    rw [heffects]
    exact hw1.stored hb
  · intro j hj
    rw [heffects]
    exact hw1.mounted (htargets j ▸ hj)

/-! ## Targets -/

lemma careful_newTarget (selector : String) : Careful (C := C) (newTarget selector) := by
  refine ⟨fun {Y w Q} hw hQ => ?_⟩
  refine secures_exchange ⟨.refl _, fun t => ?_⟩ (hQ _ _ (.refl _) (hw.of_effects id rfl))
  rw [getElem?_push]
  split
  · rename_i ht
    rw [getElem?_eq_none (Nat.le_of_eq ht.symm)]
    exact .creates
  · exact .leaves _

lemma careful_clearHandlers (t : TargetId) : Careful (C := C) (clearHandlers t) := by
  refine ⟨fun {Y w Q} hw hQ => ?_⟩
  have hmoves := moves_modifyTarget w.state t .detaches
  exact secures_exchange (g := fun _ => .done ()) hmoves (hQ () _ (.refl _) (hw.of_effects id rfl))

/-! ## Rendering and mounting -/

/-- Rendering writes to the target that the instance is mounted on in the end, whatever happened to
it meanwhile. -/
lemma careful_renderTop : Careful (C := C) (renderTop i) := by
  rw [renderTop_eq]
  refine ⟨fun {Y w Q} hw hQ => ?_⟩
  refine secures_bind.mpr ((careful_modest modest_resetStacks).secures hw fun _ w1 hp1 hw1 => ?_)
  refine secures_bind.mpr (secures_get ?_)
  change Secures Y Q (found i w1.state.instances[i.index]?) w1
  cases hx : w1.state.instances[i.index]? with
  | none => exact hQ _ _ hp1 hw1
  | some x =>
    refine secures_bind.mpr
      ((careful_modest (modest_renderInstance x)).secures hw1 fun r w2 hp2 hw2 => ?_)
    refine secures_bind.mpr (secures_bind.mpr
      ((careful_modest (modest_settle _ _ r)).secures hw2 fun rendered w3 hp3 hw3 => ?_))
    have hp := hp1.trans (hp2.trans hp3)
    refine secures_bind.mpr (secures_get ?_)
    -- the target is looked up anew, while the data is that of the instance from before
    change Secures Y Q (post i x.data rendered (w3.state.targetOf i)) w3
    cases ht : w3.state.targetOf i with
    | none => exact hQ rendered w3 hp hw3
    | some t =>
      obtain ⟨y, hy, hdata⟩ := hp2.trans hp3 i.index x hx
      have hyt : y.target = some t := by rwa [targetOf, hy] at ht
      have hmoves := moves_modifyTarget w3.state t (.writes hy hyt rendered.html)
      rw [hdata] at hmoves
      exact secures_modify hmoves (hQ rendered _ hp (hw3.of_effects id rfl))

end

lemma secures_store (hw : w.InCustody ((e, i) :: Y)) (ht : w.state.targetOf i ≠ none)
    (hQ : ∀ w', w.state.Persists w'.state → w'.InCustody Y → Q () w') :
    Secures Y Q (store i e (w.state.effectOf i)) w := by
  have hmoves : w.state.Moves (changed i (fun x => { x with mountEffect := some e }) w.state) :=
    moves_changed _ _ fun _ => rfl
  obtain ⟨t, ht⟩ := Option.ne_none_iff_exists'.mp ht
  obtain ⟨x, hx, hxt⟩ := Option.bind_eq_some_iff.mp ht
  have hstored : (changed i (fun x => { x with mountEffect := some e }) w.state).effectOf i =
      some e := by
    rw [effectOf_changed_self, hx]
    rfl
  have hmounted : (changed i (fun x => { x with mountEffect := some e }) w.state).targetOf i ≠
      none := by
    rw [targetOf_changed_self, hx]
    exact fun h => Option.some_ne_none t (hxt.symm.trans h)
  have hY : ∀ {e' j}, j ≠ i → (e', j) ∈ (e, i) :: Y → (e', j) ∈ Y := by
    intro e' j hj hmem
    exact (List.mem_cons.mp hmem).resolve_left fun h => hj (Prod.mk.inj h).2
  -- of the effects of this instance, the new one and those that are still to be stored stay
  have hkept : ∀ {e'}, w.effectBody e' = some (.refresh i) → w.state.effectOf i ≠ some e' →
      (changed i (fun x => { x with mountEffect := some e }) w.state).effectOf i = some e' ∨
        (e', i) ∈ Y := by
    intro e' hb hne
    rcases List.mem_cons.mp ((hw.stored hb).resolve_left hne) with heq | hmem
    · rw [(Prod.mk.inj heq).1]
      exact .inl hstored
    · exact .inr hmem
  refine secures_modify hmoves ?_
  cases he : w.state.effectOf i with
  | none =>
    refine hQ _ hmoves.persists (hw.changed rfl id hY (fun hb => hkept hb ?_) fun h => ?_)
    · rw [he]
      exact (Option.some_ne_none _).symm
    · exact absurd h hmounted
  | some previous =>
    have hstate := state_dispose
      { w with state := changed i (fun x => { x with mountEffect := some e }) w.state } previous
    refine secures_dispose (g := .done) (hQ _ (hstate ▸ hmoves.persists) ?_)
    refine hw.changed hstate (effectBody_of_dispose previous) hY (fun hb => ?_) fun h => ?_
    · rw [hstate]
      have hbefore := effectBody_of_dispose previous hb
      refine hkept hbefore fun h => ?_
      exact ne_of_dispose hb (Option.some.inj (h.symm.trans he))
    · rw [hstate] at h
      exact absurd h hmounted

section

variable (i)

lemma careful_mountTarget (t : TargetId) :
    Careful (C := C) (mountTarget i t) := by
  rw [mountTarget_eq]
  refine ⟨fun {Y w Q} hw hQ => ?_⟩
  have hmoves : w.state.Moves (changed i (fun x => { x with target := some t }) w.state) :=
    moves_changed _ _ fun _ => rfl
  refine secures_modify hmoves ⟨hw.changed rfl id (fun _ => id) ?_ ?_, ?_, ?_⟩
  · intro e hb
    rw [effectOf_changed_self]
    exact hw.stored hb
  · intro ht
    rw [targetOf_changed_self] at ht
    rw [effectOf_changed_self]
    cases hx : w.state.instances[i.index]? with
    | none => rfl
    | some x =>
      rw [hx] at ht
      cases ht
  · intro x hx
    have hx : (changed i (fun x => { x with target := some t }) w.state).instances[i.index]? =
      some x := hx
    rw [instances_changed, if_pos rfl] at hx
    obtain ⟨y, -, rfl⟩ := Option.map_eq_some_iff.mp hx
    exact Option.some_ne_none t
  · intro e w1 hp1 hw1
    have hp := hmoves.persists.trans hp1
    -- the first run is over, and anything may have been mounted or unmounted in it
    refine secures_bind.mpr (secures_get ?_)
    change Secures Y Q (adopt i e (w1.state.targetOf i) (w1.state.effectOf i)) w1
    cases ht : w1.state.targetOf i with
    | none =>
      refine secures_dispose (g := .done) (hQ () _ ?_ hw1.drop)
      rw [state_dispose]
      exact hp
    | some t' =>
      refine secures_store hw1 (by rw [ht]; exact Option.some_ne_none t') ?_
      exact fun w2 hp2 => hQ () w2 (hp.trans hp2)

lemma careful_vacate (t : Option TargetId) : Careful (C := C) (vacate t) := by
  cases t with
  | none => exact careful_done ()
  | some t => exact careful_clearHandlers t

/-- Unmounting ends the effect of the instance before it takes the instance from its target. -/
lemma careful_detach : Careful (C := C) (detach i) := by
  refine ⟨fun {Y w Q} hw hQ => ?_⟩
  refine secures_bind.mpr (secures_endMountEffect hw fun w1 hp1 hw1 he => ?_)
  refine secures_bind.mpr (secures_get ?_)
  cases w1.state.instances[i.index]? with
  | none => exact hQ _ _ hp1 hw1
  | some x =>
    have hmoves : w1.state.Moves (changed i (fun x => { x with target := none }) w1.state) :=
      moves_changed _ _ fun _ => rfl
    have hnone : (changed i (fun x => { x with target := none }) w1.state).effectOf i = none := by
      rw [effectOf_changed_self]
      exact he
    have hw2 : InCustody Y { w1 with
        state := changed i (fun x => { x with target := none }) w1.state } := by
      refine hw1.changed rfl id (fun _ => id) (fun hb => ?_) fun _ => hnone
      exact (hw1.stored hb).imp_left fun h => absurd (h.symm.trans he) (Option.some_ne_none _)
    refine secures_modify hmoves (secures_bind.mpr ((careful_vacate x.target).secures hw2 ?_))
    exact fun _ w3 hp3 => hQ _ w3 ((hp1.trans hmoves.persists).trans hp3)

end

end View

/-! ## Applications -/

/-- A program that keeps to the interface of the view layer: apart from operations of which `P`
holds, it creates, mounts, renders, unmounts and lets go of instances as the view layer does. -/
inductive View.KeepsTo (P : C.Op → Prop) : {α : Type} → View C α → Prop
  | done (a : α) : KeepsTo P (.done a)
  | step {α : Type} {op : C.Op} {next : op.Reply → View C α} (hop : P op)
      (hnext : ∀ r, KeepsTo P (next r)) : KeepsTo P (.step op next)
  | create (d : Definition C.Body) (o : InstanceOptions) (hf : ∀ i, KeepsTo P (f i)) :
      KeepsTo P (construct d o >>= keep >>= f)
  | newTarget (selector : String) (hf : ∀ t, KeepsTo P (f t)) :
      KeepsTo P (newTarget selector >>= f)
  | mountTarget (i : InstanceId) (t : TargetId) (hf : ∀ r, KeepsTo P (f r)) :
      KeepsTo P (mountTarget i t >>= f)
  | unmount (i : InstanceId) (hf : ∀ r, KeepsTo P (f r)) : KeepsTo P (unmount i >>= f)
  | renderTop (i : InstanceId) (hf : ∀ r, KeepsTo P (f r)) : KeepsTo P (renderTop i >>= f)
  | release (i : InstanceId) (hf : ∀ r, KeepsTo P (f r)) : KeepsTo P (release i >>= f)
  | during (i : InstanceId) (hp : KeepsTo P p) (hf : ∀ a, KeepsTo P (f a)) :
      KeepsTo P (during i p >>= f)

/-- An application whose bodies and tasks keep to the interface. -/
structure Behaviour.KeepsTo (P : C.Op → Prop) (b : Behaviour C) : Prop where
  invoke : ∀ body occasion, View.KeepsTo P (b.invoke body occasion)
  task : ∀ t, View.KeepsTo P (b.task t)

/-- A program that leaves instances and targets to the view layer. -/
abbrev View.Uses (p : View C α) : Prop :=
  p.KeepsTo Op.IsOrdinary

@[inherit_doc View.Uses]
abbrev Behaviour.Uses (b : Behaviour C) : Prop :=
  b.KeepsTo Op.IsOrdinary

namespace View

/-- A manner of programs that has to do with instances in the few places listed here only. -/
structure Manner (C : Client) where
  Keeps {α : Type} : View C α → Prop
  done {α : Type} (a : α) : Keeps (.done a)
  bind {α β : Type} {p : View C α} {f : α → View C β} (hp : Keeps p) (hf : ∀ a, Keeps (f a)) :
    Keeps (p >>= f)
  ordinary {α : Type} {p : View C α} (hp : p.Only Op.IsOrdinary) : Keeps p
  modifyInstance (i : InstanceId) {f : C.Instance → C.Instance} (hf : ∀ x, (f x).Resembles x) :
    Keeps (modifyInstance i f)
  endMountEffect (i : InstanceId) : Keeps (endMountEffect i)
  create (d : Definition C.Body) (o : InstanceOptions) : Keeps (construct d o >>= keep)
  newTarget (selector : String) : Keeps (newTarget selector)
  renderTop (i : InstanceId) : Keeps (renderTop i)
  mountTarget (i : InstanceId) (t : TargetId) : Keeps (mountTarget i t)
  detach (i : InstanceId) : Keeps (detach i)

def carefulness : Manner C where
  Keeps := Careful
  done := careful_done
  bind := .bind
  ordinary := careful_ordinary
  modifyInstance i _ := careful_modifyInstance i
  endMountEffect := careful_endMountEffect
  create := careful_create
  newTarget := careful_newTarget
  renderTop := careful_renderTop
  mountTarget := careful_mountTarget
  detach := careful_detach

namespace Manner

variable {M : Manner C} {i : InstanceId} {b : Behaviour C}

lemma get : M.Keeps (C := C) View.get := M.ordinary (.perform trivial)

lemma instance? (i : InstanceId) : M.Keeps (C := C) (instance? i) := M.bind get fun _ => M.done _

lemma retire (i : InstanceId) : M.Keeps (retire i) := by
  refine M.bind (instance? i) fun x => ?_
  split
  · split
    · exact M.done ()
    · exact M.endMountEffect i
  · exact M.done ()

lemma during (i : InstanceId) (hp : M.Keeps p) : M.Keeps (during i p) := by
  refine M.bind (M.modifyInstance i ?_) fun _ => M.bind hp fun a => ?_
  · exact fun _ => ⟨rfl, rfl, rfl⟩
  · refine M.bind (M.modifyInstance i ?_) fun _ => ?_
    · exact fun _ => ⟨rfl, rfl, rfl⟩
    · exact M.bind (retire i) fun _ => M.done a

lemma release (i : InstanceId) : M.Keeps (release i) := by
  refine M.bind (M.modifyInstance i ?_) fun _ => retire i
  exact fun _ => ⟨rfl, rfl, rfl⟩

lemma hooks (hf : ∀ x, (f x).Resembles x) (x : C.Instance)
    (hooks : HookSet C.Body → List C.Body) : M.Keeps (View.modifyInstance i f >>= fun _ =>
      hooksOf x.hooks >>= fun h => runHooks i (hooks h)) := by
  refine M.bind (M.modifyInstance i hf) fun _ => M.bind (M.bind get fun _ => M.done _) fun h => ?_
  refine M.ordinary ?_
  induction hooks h with
  | nil => exact .done ()
  | cons b rest ih => exact Only.bind (.perform trivial) fun _ => ih

lemma afterRender (i : InstanceId) (rendered : Rendered) : M.Keeps (afterRender i rendered) := by
  cases rendered with
  | diagnostic d => exact M.done ()
  | markup html =>
    refine M.bind (instance? i) fun x => ?_
    split
    · split
      · exact M.done ()
      · refine hooks ?_ _ _
        exact fun _ => ⟨rfl, rfl, rfl⟩
    · exact M.done ()

lemma refresh (i : InstanceId) : M.Keeps (refresh i) := by
  refine M.bind (instance? i) fun x => ?_
  split
  · split
    · exact during i (M.bind (M.renderTop i) (afterRender i))
    · exact M.done ()
  · exact M.done ()

lemma unmount (i : InstanceId) : M.Keeps (unmount i) := by
  rw [unmount_eq]
  refine M.bind (M.detach i) fun x => ?_
  cases x with
  | none => exact M.done ()
  | some x =>
    rw [farewell]
    split
    · exact M.done ()
    · refine hooks ?_ _ _
      exact fun _ => ⟨rfl, rfl, rfl⟩

/-- Programs that leave instances and targets to the view layer keep to it. -/
lemma of_uses (h : p.Uses) : M.Keeps p := by
  induction h with
  | done a => exact M.done a
  | @step _ op next hop _ ih => exact M.bind (p := perform op) (M.ordinary (.perform hop)) ih
  | create d o _ ih => exact M.bind (M.create d o) ih
  | newTarget selector _ ih => exact M.bind (M.newTarget selector) ih
  | mountTarget i t _ ih => exact M.bind (M.mountTarget i t) ih
  | unmount i _ ih => exact M.bind (unmount i) ih
  | renderTop i _ ih => exact M.bind (M.renderTop i) ih
  | release i _ ih => exact M.bind (release i) ih
  | during i _ _ ihp ih => exact M.bind (during i ihp) ih

lemma semantics (hb : b.Uses) (c : Code C) : M.Keeps (semantics b c) := by
  cases c with
  | invoke body occasion => exact of_uses (hb.invoke body occasion)
  | render r scope owner =>
    exact M.ordinary ((modest_routine b r scope owner).imp fun _ => Op.IsModest.isOrdinary)
  | refresh i => exact refresh i
  | task t => exact of_uses (hb.task t)

end Manner

lemma careful_semantics (hb : b.Uses) (c : Code C) : Careful (semantics b c) :=
  carefulness.semantics hb c

/-! ### Runs of applications -/

/-- The first moment of a program of an application that has done nothing yet. -/
def opening (p : View C α) (c : C.State) : C.Moment :=
  .code p .nothing { state := { client := c } }

abbrev RunsTo (b : Behaviour C) (p : View C α) (c : C.State) (n : Nat) (m : C.Moment) :
    Prop :=
  (semantics b).after (opening p c) n = some m

variable {p : View C α} {m : C.Moment}

lemma inCustody_empty (c : C.State) : InCustody [] { state := { client := c } } := by
  refine ⟨fun hb => ?_, fun _ => rfl⟩
  cases hb

lemma guarded_begin (hp : p.Uses) (hw : w.InCustody []) :
    Moment.Guarded [] (.code p .nothing w) :=
  .code .nothing ((carefulness.of_uses hp).secures hw fun _ _ _ hw' => hw')

lemma guarded_from (hb : b.Uses) (hm0 : m0.Guarded Y0) (hm : (semantics b).after m0 n = some m) :
    ∃ Y, m.Guarded Y := by
  refine Semantics.after_keeps (P := fun m : C.Moment => ∃ Y, m.Guarded Y) ?_ hm ⟨Y0, hm0⟩
  rintro m1 m2 hstep ⟨Y1, hm1⟩
  obtain ⟨Y2, hm2, -⟩ := hstep.guarded (careful_semantics hb) hm1
  exact ⟨Y2, hm2⟩

lemma guarded_after (hb : b.Uses) (hp : p.Uses) (hm : RunsTo b p c n m) : ∃ Y, m.Guarded Y :=
  guarded_from hb (guarded_begin hp (inCustody_empty c)) hm

lemma moves_after (hb : b.Uses) (hp : p.Uses) (hm : RunsTo b p c n m)
    (h : m.Step (semantics b) m') : m.world.state.Moves m'.world.state := by
  obtain ⟨Y, hguarded⟩ := guarded_after hb hp hm
  obtain ⟨-, -, hmoves, -⟩ := h.guarded (careful_semantics hb) hguarded
  exact hmoves

end View

def Client.single : Client where
  Body := Unit
  Task := Empty
  Answer := Unit
  State := Unit

end LiveMarkup
