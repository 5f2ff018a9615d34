import LiveMarkup.Proofs.Bracketing
import LiveMarkup.Proofs.Refreshing
import LiveMarkup.Proofs.Restraint

/-!
# Custody of mount effects

An effect that keeps a target up to date must not get lost: whoever unmounts the instance has to
find it. So each of them is stored with its instance, except while it runs for the first time, when
whoever creates it still has to store it. That is the invariant `World.InCustody`.

The invariant does not hold after every operation: storing a new effect and ending the one before it
are two, but nothing else runs in between. `Program.Secures` therefore follows a program through the
world as long as it runs no code, and asks for the invariant only where it does. On the way it asks
of every change of the state that it treats targets as it should: only an instance that is mounted
on a target writes to it.

What one program secures, a whole run does: `Moment.Step.guarded`.
-/

namespace LiveMarkup

open List World View ViewState Pending

abbrev Client.Moment (C : Client) := LiveMarkup.Moment C.signature
abbrev Client.Pending (C : Client) := LiveMarkup.Pending C.signature

/-- Effects that are still to be stored, each with its instance. -/
abbrev Charges := List (EffectId × InstanceId)

variable {s : ViewState C} {w : C.World} {p : View C α}

/-! ## Instances and targets -/

namespace ViewState

def targetOf (s : ViewState C) (i : InstanceId) : Option TargetId :=
  s.instances[i.index]?.bind (·.target)

lemma eq_zero_of_targetOf (hsize : s.instances.size ≤ 1) (h : s.targetOf i = some t) : i = ⟨0⟩ := by
  obtain ⟨x, hx, -⟩ := Option.bind_eq_some_iff.mp h
  obtain ⟨hlt, -⟩ := Array.getElem?_eq_some_iff.mp hx
  have hzero : i.index = 0 := by omega
  exact congrArg InstanceId.mk hzero

lemma eq_zero_of_passes {sem : Semantics C.signature}
    (hcheck : sem.passes (fun m => decide (m.world.state.instances.size ≤ 1)) m0 n = true)
    (hl : l ≤ n) (hm : sem.after m0 l = some m) (h : m.world.state.targetOf i = some t) : i = ⟨0⟩ :=
  eq_zero_of_targetOf (of_decide_eq_true (Semantics.check_of_passes hcheck hl hm)) h

def effectOf (s : ViewState C) (i : InstanceId) : Option EffectId :=
  s.instances[i.index]?.bind (·.mountEffect)

/-- Instances that are kept stay, over the same data. -/
def Persists (s s' : ViewState C) : Prop :=
  ∀ (i : Nat) (x : C.Instance), s.instances[i]? = some x →
    ∃ x', s'.instances[i]? = some x' ∧ x'.data = x.data

lemma Persists.refl (s : ViewState C) : s.Persists s := fun _ x hx => ⟨x, hx, rfl⟩

lemma Persists.trans {s1 s2 s3 : ViewState C} (h : s1.Persists s2) (h' : s2.Persists s3) :
    s1.Persists s3 := by
  intro i x hx
  obtain ⟨x2, hx2, hdata2⟩ := h i x hx
  obtain ⟨x3, hx3, hdata3⟩ := h' i x2 hx2
  exact ⟨x3, hx3, hdata3.trans hdata2⟩

lemma Persists.of_eq (h : s'.instances = s.instances) : s.Persists s' := by
  intro i x hx
  exact ⟨x, h ▸ hx, rfl⟩

/-- What may become of a target: nothing, it may be created, its handlers may be detached, or an
instance that is mounted on it writes its markup to it. -/
inductive Treats (s : ViewState C) (t : TargetId) : Option Target → Option Target → Prop
  | leaves (y : Option Target) : Treats s t y y
  | creates : Treats s t none (some {})
  | detaches (y : Target) : Treats s t (some y) (some { y with handlers := [] })
  | writes {i : InstanceId} {x : C.Instance} (hx : s.instances[i.index]? = some x)
      (ht : x.target = some t) (html : String) (y : Target) :
      Treats s t (some y) (some (rewritten i x.data html y))

/-- A change of the state that keeps instances and treats every target as it should. -/
structure Moves (s s' : ViewState C) : Prop where
  persists : s.Persists s'
  targets : ∀ t : TargetId, s.Treats t s.targets[t.index]? s'.targets[t.index]?

lemma Moves.of_eq (hi : s'.instances = s.instances) (ht : s'.targets = s.targets) : s.Moves s' := by
  refine ⟨.of_eq hi, fun t => ?_⟩
  rw [ht]
  exact .leaves _

lemma Moves.refl (s : ViewState C) : s.Moves s := .of_eq rfl rfl

lemma moves_modifyTarget (s : ViewState C) (t : TargetId)
    (hf : ∀ y, s.Treats t (some y) (some (f y))) :
    s.Moves { s with targets := s.targets.modify t.index f } := by
  refine ⟨.refl s, fun t' => ?_⟩
  rw [Array.getElem?_modify]
  split
  · rename_i hindex
    obtain rfl : t = t' := congrArg TargetId.mk hindex
    cases s.targets[t.index]? with
    | none => exact .leaves none
    | some y => exact hf y
  · exact .leaves _

section Changed

variable (s : ViewState C) (i : InstanceId) (f : C.Instance → C.Instance)

lemma instances_changed (j : InstanceId) : (changed i f s).instances[j.index]? =
      if j = i then s.instances[j.index]?.map f else s.instances[j.index]? := by
  rw [Array.getElem?_modify]
  by_cases hji : j = i
  · rw [if_pos hji, if_pos (congrArg InstanceId.index hji.symm)]
  · have hindex : i.index ≠ j.index := fun h => hji (congrArg InstanceId.mk h.symm)
    rw [if_neg hji, if_neg hindex]

lemma targetOf_changed_of_ne (h : j ≠ i) : (changed i f s).targetOf j = s.targetOf j := by
  rw [targetOf, instances_changed, if_neg h]
  rfl

lemma effectOf_changed_of_ne (h : j ≠ i) : (changed i f s).effectOf j = s.effectOf j := by
  rw [effectOf, instances_changed, if_neg h]
  rfl

lemma targetOf_changed_self :
    (changed i f s).targetOf i = s.instances[i.index]?.bind fun x => (f x).target := by
  rw [targetOf, instances_changed, if_pos rfl, Option.bind_map]
  rfl

lemma effectOf_changed_self :
    (changed i f s).effectOf i = s.instances[i.index]?.bind fun x => (f x).mountEffect := by
  rw [effectOf, instances_changed, if_pos rfl, Option.bind_map]
  rfl

variable {f} in
lemma moves_changed (hf : ∀ x, (f x).data = x.data) : s.Moves (changed i f s) := by
  refine ⟨?_, fun t => .leaves _⟩
  intro j x hx
  have hj := instances_changed s i f ⟨j⟩
  rw [show s.instances[(⟨j⟩ : InstanceId).index]? = some x from hx] at hj
  split at hj
  · exact ⟨f x, hj, hf x⟩
  · exact ⟨x, hj, rfl⟩

end Changed

end ViewState

/-! ## The invariant -/

/-- Every effect of a mounted instance is stored with the instance, but for the effects in `Y`, and
nothing is stored with an instance that is not mounted. -/
structure World.InCustody (Y : Charges) (w : C.World) : Prop where
  stored : ∀ {e i}, w.effectBody e = some (.refresh i) → w.state.effectOf i = some e ∨ (e, i) ∈ Y
  mounted : ∀ {i}, w.state.targetOf i = none → w.state.effectOf i = none

lemma World.state_dispose (w : C.World) (e : EffectId) : (w.dispose e).state = w.state := by
  rw [dispose]
  split <;> rfl

variable {op : C.Op} {k : C.Pending α}

lemma World.ne_of_dispose (hb : (w.dispose e).effectBody e' = some c) : e' ≠ e := by
  rintro rfl
  rw [effectBody_dispose, if_pos rfl] at hb
  cases hb

lemma World.effectBody_of_dispose (e : EffectId) (hb : (w.dispose e).effectBody e' = some c) :
    w.effectBody e' = some c := by
  have hne := ne_of_dispose hb
  rwa [effectBody_dispose, if_neg hne] at hb

namespace World.InCustody

variable {w' : C.World}

lemma of_effects (h : w.InCustody Y)
    (hbody : ∀ {e c}, w'.effectBody e = some c → w.effectBody e = some c)
    (hstate : w'.state.instances = w.state.instances) : w'.InCustody Y where
  stored {e i} hb := by
    rw [effectOf, hstate]
    exact h.stored (hbody hb)
  mounted {i} ht := by
    rw [targetOf, hstate] at ht
    rw [effectOf, hstate]
    exact h.mounted ht

/-- Where one instance has changed, it is for that instance to be accounted for. -/
lemma changed (h : w.InCustody Y) (hstate : w'.state = changed i f w.state)
    (hbody : ∀ {e c}, w'.effectBody e = some c → w.effectBody e = some c)
    (hY : ∀ {e j}, j ≠ i → (e, j) ∈ Y → (e, j) ∈ Y') (hstored : ∀ {e}, w'.effectBody e = some
    (.refresh i) → w'.state.effectOf i = some e ∨ (e, i) ∈ Y')
    (hmounted : w'.state.targetOf i = none → w'.state.effectOf i = none) : w'.InCustody Y' where
  stored {e j} hb := by
    by_cases hj : j = i
    · subst hj
      exact hstored hb
    · rw [hstate, effectOf_changed_of_ne _ _ _ hj]
      exact (h.stored (hbody hb)).imp_right (hY hj)
  mounted {j} ht := by
    by_cases hj : j = i
    · subst hj
      exact hmounted ht
    · rw [hstate, targetOf_changed_of_ne _ _ _ hj] at ht
      rw [hstate, effectOf_changed_of_ne _ _ _ hj]
      exact h.mounted ht

lemma dispose (h : w.InCustody Y) (e : EffectId) : (w.dispose e).InCustody Y :=
  h.of_effects (effectBody_of_dispose e) (by rw [state_dispose])

lemma drop (h : w.InCustody ((e, i) :: Y)) : (w.dispose e).InCustody Y where
  stored {e' j} hb := by
    rw [state_dispose]
    refine (h.stored (effectBody_of_dispose e hb)).imp_right fun hmem => ?_
    refine (mem_cons.mp hmem).resolve_left fun heq => ?_
    exact ne_of_dispose hb (Prod.mk.inj heq).1
  mounted {j} ht := by
    rw [state_dispose] at ht ⊢
    exact h.mounted ht

section

variable (h : w.InCustody Y)
include h

lemma newEffect (hc : ∀ i, c ≠ .refresh i) :
    (w.newEffect c).2.InCustody Y where
  stored {e i} hb := by
    rw [effectBody_newEffect] at hb
    split at hb
    · exact absurd (Option.some.inj hb) (hc i)
    · exact h.stored hb
  mounted := h.mounted

lemma newborn (i : InstanceId) :
    (w.newEffect (.refresh i)).2.InCustody (((w.newEffect (.refresh i)).1, i) :: Y) where
  stored {e j} hb := by
    rw [effectBody_newEffect] at hb
    split at hb
    · rename_i hindex
      cases hb
      have he : e = (w.newEffect (.refresh i)).1 := congrArg EffectId.mk hindex
      exact .inr (he ▸ mem_cons_self)
    · exact (h.stored hb).imp_right (mem_cons_of_mem _)
  mounted := h.mounted

lemma enter (e : EffectId) : (w.enter e).InCustody Y := by
  refine h.of_effects ?_ (by rw [state_enter])
  intro e' c hb
  rwa [effectBody_enter] at hb

lemma leave (e : EffectId) (before : Option EffectId) : (w.leave e before).InCustody Y := by
  refine h.of_effects ?_ rfl
  intro e' c hb
  rwa [effectBody_leave] at hb

end

end World.InCustody

/-! ## What programs secure -/

/-- The effects that are not stored yet, once code has been made an effect. -/
def Code.unstored (e : EffectId) (Y : Charges) :
    Code C → Charges
  | .refresh i => (e, i) :: Y
  | _ => Y

/-- Code that may be made an effect: an instance has to be mounted before it is kept up to date. -/
def Code.MayStart (s : ViewState C) : Code C → Prop
  | .refresh i => ∀ x, s.instances[i.index]? = some x → x.target ≠ none
  | _ => True

/-- An operation that runs no code changes the state as it should, and `Q` holds of its reply and
the world after it. One that runs code finds mount effects in custody, and `Q` holds as soon as they
are in custody again. -/
def Op.Secures (Y : Charges) : (op : C.Op) →
    (op.Reply → C.World → Prop) → C.World → Prop
  | .spawn c, Q, w => w.InCustody Y ∧ c.MayStart w.state ∧
      ∀ e w', w.state.Persists w'.state → w'.InCustody (c.unstored e Y) → Q e w'
  | .write _, Q, w | .call _, Q, w | .within _ _, Q, w | .rerun _, Q, w | .trigger _, Q, w =>
    w.InCustody Y ∧ ∀ r w', w.state.Persists w'.state → w'.InCustody Y → Q r w'
  | op, Q, w => ∀ r w', op.perform (fun _ _ => none) w = some (r, w') →
      w.state.Moves w'.state ∧ Q r w'

/-- A program that secures mount effects and the treatment of targets, and ends where `Q` holds. -/
def Program.Secures (Y : Charges) (Q : α → C.World → Prop) :
    View C α → C.World → Prop
  | .done a, w => Q a w
  | .step op next, w => op.Secures Y (fun r w' => (next r).Secures Y Q w') w

section Secures

lemma Op.secures_of_inert (hop : op.IsInert) :
    op.Secures Y Q w ↔ ∀ r w', op.perform (fun _ _ => none) w = some (r, w') →
      w.state.Moves w'.state ∧ Q r w' := by
  cases op <;> first | exact Iff.rfl | exact hop.elim

lemma Op.Secures.mono (hQ : ∀ r w', Q r w' → Q' r w') (h : op.Secures Y Q w) :
    op.Secures Y Q' w := by
  have inert : op.IsInert → op.Secures Y Q' w := by
    intro hop
    rw [Op.secures_of_inert hop] at h ⊢
    exact fun r w' hr => ⟨(h r w' hr).1, hQ r w' (h r w' hr).2⟩
  cases op with
  | spawn c => exact ⟨h.1, h.2.1, fun e w' hp hw => hQ e w' (h.2.2 e w' hp hw)⟩
  | write | call | within | rerun | trigger =>
    exact ⟨h.1, fun r w' hp hw => hQ r w' (h.2 r w' hp hw)⟩
  | _ => exact inert trivial

namespace Program

lemma secures_bind :
    (p >>= f).Secures Y Q w ↔ p.Secures Y (fun a w' => (f a).Secures Y Q w') w := by
  induction p generalizing w with
  | done a => exact Iff.rfl
  | step op next ih =>
    constructor
    · exact Op.Secures.mono fun r w' h => (ih r).mp h
    · exact Op.Secures.mono fun r w' h => (ih r).mpr h

lemma secures_get (h : (g w.state).Secures Y Q w) : (get >>= g).Secures Y Q w := by
  rintro r w' hr
  cases hr
  exact ⟨.refl _, h⟩

lemma secures_exchange (hm : w.state.Moves (f w.state))
    (h : (g w.state).Secures Y Q { w with state := f w.state }) :
    (exchange f >>= g).Secures Y Q w := by
  rintro r w' hr
  cases hr
  exact ⟨hm, h⟩

lemma secures_modify (hm : w.state.Moves (f w.state))
    (h : (g ()).Secures Y Q { w with state := f w.state }) : (modify f >>= g).Secures Y Q w :=
  secures_bind.mpr (secures_exchange (g := fun _ => .done ()) hm h)

lemma secures_dispose {g : Unit → View C β} (h : (g ()).Secures Y Q (w.dispose e)) :
    (perform (.dispose e) >>= g).Secures Y Q w := by
  rintro r w' hr
  cases hr
  refine ⟨?_, h⟩
  rw [state_dispose]
  exact .refl _

end Program

end Secures

/-! ## Ordinary operations -/

/-- Operations that leave instances and targets alone, and create no mount effects. -/
def Op.IsOrdinary : C.Op → Prop
  | .spawn (.refresh _) => False
  | .modify f => ∀ s, (f s).instances = s.instances ∧ (f s).targets = s.targets
  | _ => True

lemma Op.IsModest.isOrdinary (h : op.IsModest) : op.IsOrdinary := by
  cases op with
  | spawn c => exact h.elim
  | modify f => exact fun s => ⟨(h.1 s).instances, (h.1 s).targets⟩
  | _ => trivial

/-- An ordinary operation that runs no code leaves mount effects in custody. -/
lemma Op.IsOrdinary.inert (hop : op.IsOrdinary) (hinert : op.IsInert)
    (hw : w.InCustody Y) (hr : op.perform (fun _ _ => none) w = some (r, w')) :
    w.state.Moves w'.state ∧ w'.InCustody Y := by
  rcases hinert.cases hr with ⟨e, rfl, rfl⟩ | ⟨e, rfl, rfl⟩ | ⟨f, rfl, rfl⟩ | ⟨-, -, -, hrec⟩
  · rw [state_dispose]
    exact ⟨.refl _, hw.dispose e⟩
  · exact ⟨.refl _, hw.of_effects id rfl⟩
  · obtain ⟨hi, ht⟩ := hop w.state
    exact ⟨.of_eq hi ht, hw.of_effects id hi⟩
  · refine ⟨hrec.state ▸ .refl _, hw.of_effects ?_ (hrec.state ▸ rfl)⟩
    intro e c hb
    rwa [effectBody_congr hrec.effects] at hb

lemma Op.IsOrdinary.secures (hop : op.IsOrdinary) (hw : w.InCustody Y)
    (hQ : ∀ r w', w.state.Persists w'.state → w'.InCustody Y → Q r w') : op.Secures Y Q w := by
  have inert : op.IsInert → op.Secures Y Q w := by
    intro hinert
    rw [Op.secures_of_inert hinert]
    intro r w' hr
    obtain ⟨hm, hw'⟩ := hop.inert hinert hw hr
    exact ⟨hm, hQ r w' hm.persists hw'⟩
  cases op with
  | spawn c =>
    cases c with
    | refresh i => exact hop.elim
    | _ => exact ⟨hw, trivial, hQ⟩
  | write | call | within | rerun | trigger => exact ⟨hw, hQ⟩
  | _ => exact inert trivial

/-! ## Careful programs -/

def Program.Returns {S : Signature} (R : α → Prop) : Program S α → Prop
  | .done a => R a
  | .step _ next => ∀ r, (next r).Returns R

lemma Program.Returns.bind {p : Program S α} {f : α → Program S β} (h : ∀ a, (f a).Returns R) :
    (p >>= f).Returns R := by
  induction p with
  | done a => exact h a
  | step op next ih => exact ih

/-- A program that finds mount effects in custody and leaves them so, whatever happens meanwhile. -/
structure View.Careful (p : View C α) : Prop where
  secures : ∀ {Y : Charges} {w : C.World}
    {Q : α → C.World → Prop}, w.InCustody Y →
    (∀ a w', w.state.Persists w'.state → w'.InCustody Y → Q a w') → p.Secures Y Q w

lemma Program.Only.secures (hp : p.Only Op.IsOrdinary) (hR : p.Returns R) (hw : w.InCustody Y)
    (hQ : ∀ a w', R a → w.state.Persists w'.state → w'.InCustody Y → Q a w') : p.Secures Y Q w := by
  induction p generalizing w with
  | done a => exact hQ a w hR (.refl _) hw
  | step op next ih =>
    refine hp.1.secures hw fun r w' hpersists hw' => ih r (hp.2 r) (hR r) hw' ?_
    exact fun a w'' hRa hpersists' => hQ a w'' hRa (hpersists.trans hpersists')

namespace View

lemma careful_ordinary (hp : p.Only Op.IsOrdinary) : p.Careful := by
  refine ⟨fun {Y w Q} hw hQ => ?_⟩
  have htrue : p.Returns fun _ => True := by
    clear hp
    induction p with
    | done a => trivial
    | step op next ih => exact ih
  exact hp.secures htrue hw fun a w' _ => hQ a w'

lemma careful_modest (hp : p.Modest) : p.Careful :=
  careful_ordinary (hp.imp fun _ => Op.IsModest.isOrdinary)

lemma careful_done (a : α) : Careful (C := C) (.done a) := ⟨fun hw hQ => hQ a _ (.refl _) hw⟩

lemma Careful.bind {f : α → View C β} (hp : p.Careful)
    (hf : ∀ a, (f a).Careful) : Careful (p >>= f) := by
  refine ⟨fun {Y w Q} hw hQ => ?_⟩
  refine Program.secures_bind.mpr (hp.secures hw fun a w' hpersists hw' => ?_)
  refine (hf a).secures hw' ?_
  exact fun b w'' hpersists' => hQ b w'' (hpersists.trans hpersists')

end View

/-! ## Runs -/

/-- What waits for a result is careful with it: when it comes to it, mount effects are in custody
but for those in `Y`, which are running for the first time. -/
inductive Pending.Guarded :
    Charges → ViewState C → {α : Type} → C.Pending α → Prop
  | nothing {s : ViewState C} {α : Type} : Guarded [] s (.nothing : C.Pending α)
  | goOn {Y : Charges} {s : ViewState C} {α β : Type} {next : α → View C β}
      {k : C.Pending β}
      (hnext : ∀ a w, s.Persists w.state → w.InCustody Y →
        (next a).Secures Y (fun _ w' => w'.InCustody Y) w)
      (hk : Guarded Y s k) : Guarded Y s (.goOn next k)
  | restore {Y : Charges} {s : ViewState C} {α : Type} {before : Option EffectId}
      {k : C.Pending α} (hk : Guarded Y s k) : Guarded Y s (.restore before k)
  | leave {Y : Charges} {s : ViewState C} {α : Type} {e : EffectId}
      {before : Option EffectId} {es : List EffectId} {slots : List Slot}
      {k : C.Pending Unit} (hk : Guarded Y s k) :
      Guarded Y s (.leave e before es slots k : C.Pending α)
  | born {Y : Charges} {s : ViewState C} {β : Type} {e : EffectId}
      {next : EffectId → View C β} {k : C.Pending β}
      (hnext : ∀ w, s.Persists w.state → w.InCustody Y →
        (next e).Secures Y (fun _ w' => w'.InCustody Y) w)
      (hk : Guarded Y s k) : Guarded Y s (.born e next k)
  /-- The first run of a mount effect: whoever created it has yet to store it. -/
  | first {Y : Charges} {s : ViewState C} {α β : Type} {e : EffectId}
      {i : InstanceId} {before : Option EffectId} {next : EffectId → View C β}
      {k : C.Pending β}
      (hnext : ∀ w, s.Persists w.state → w.InCustody ((e, i) :: Y) →
        (next e).Secures Y (fun _ w' => w'.InCustody Y) w)
      (hk : Guarded Y s k) :
      Guarded ((e, i) :: Y) s (.leave e before [] [] (.born e next k) : C.Pending α)

/-- A moment at which everything is careful that goes on or waits, while the mount effects in `Y`
are in their first run or about to begin it. -/
inductive Moment.Guarded : Charges → C.Moment → Prop
  | code {Y : Charges} {α : Type} {p : View C α} {k : C.Pending α}
      {w : C.World} (hk : k.Guarded Y w.state)
      (hp : p.Secures Y (fun _ w' => w'.InCustody Y) w) : Guarded Y (.code p k w)
  | turns {Y : Charges} {es : List EffectId} {slots : List Slot}
      {k : C.Pending Unit} {w : C.World} (hk : k.Guarded Y w.state)
      (hw : w.InCustody Y) : Guarded Y (.turns es slots k w)
  /-- A mount effect was created for a mounted instance, and its first run is about to begin. -/
  | starting {Y : Charges} {β : Type} {e : EffectId} {i : InstanceId}
      {next : EffectId → View C β} {k : C.Pending β} {w : C.World}
      (hstart : (Code.refresh i : Code C).MayStart w.state)
      (hnext : ∀ w', w.state.Persists w'.state → w'.InCustody ((e, i) :: Y) →
        (next e).Secures Y (fun _ w' => w'.InCustody Y) w')
      (hk : k.Guarded Y w.state) (hw : w.InCustody ((e, i) :: Y)) :
      Guarded ((e, i) :: Y) (.turns [e] [] (.born e next k) w)
  /-- The first run is over, and whoever created the effect goes on. -/
  | started {Y : Charges} {β : Type} {e : EffectId} {i : InstanceId}
      {next : EffectId → View C β} {k : C.Pending β} {w : C.World}
      (hnext : ∀ w', w.state.Persists w'.state → w'.InCustody ((e, i) :: Y) →
        (next e).Secures Y (fun _ w' => w'.InCustody Y) w')
      (hk : k.Guarded Y w.state) (hw : w.InCustody ((e, i) :: Y)) :
      Guarded Y (.turns [] [] (.born e next k) w)
  | created {Y : Charges} {β : Type} {e : EffectId}
      {next : EffectId → View C β} {k : C.Pending β} {w : C.World}
      (hk : k.Guarded Y w.state)
      (hnext : (next e).Secures Y (fun _ w' => w'.InCustody Y) w) :
      Guarded Y (.code (.done ()) (.born e next k) w)

lemma Pending.Guarded.later (h : k.Guarded Y s) (hs : s.Persists s') : k.Guarded Y s' := by
  induction h with
  | nothing => exact .nothing
  | goOn hnext _ ih => exact .goOn (fun a w hw => hnext a w (hs.trans hw)) (ih hs)
  | restore _ ih => exact .restore (ih hs)
  | leave _ ih => exact .leave (ih hs)
  | born hnext _ ih => exact .born (fun w hw => hnext w (hs.trans hw)) (ih hs)
  | first hnext _ ih => exact .first (fun w hw => hnext w (hs.trans hw)) (ih hs)

lemma Pending.Guarded.subset_running (h : k.Guarded Y s) : Y.map Prod.fst ⊆ k.running := by
  induction h with
  | nothing => exact nil_subset _
  | goOn _ _ ih | restore _ ih | born _ _ ih => exact ih
  | leave _ ih =>
    exact fun e he => mem_cons_of_mem _ (ih he)
  | first _ _ ih =>
    exact cons_subset_cons _ ih

namespace Moment

variable {m : C.Moment}

/-- When all code is careful, every step leaves everything careful, and treats targets as it should.
Only a mount makes another effect begin its first run. -/
lemma Step.guarded (hsem : ∀ c, Careful (sem c)) (h : m.Step sem m') (hm : m.Guarded Y) :
    ∃ Y', m'.Guarded Y' ∧ m.world.state.Moves m'.world.state ∧ ∀ {e i}, (e, i) ∈ Y' →
        (e, i) ∈ Y ∨ (Code.refresh i : Code C).MayStart m.world.state := by
  have same : m'.Guarded Y → m.world.state.Moves m'.world.state → ∃ Y', m'.Guarded Y' ∧
      m.world.state.Moves m'.world.state ∧ ∀ {e i}, (e, i) ∈ Y' →
        (e, i) ∈ Y ∨ (Code.refresh i : Code C).MayStart m.world.state :=
    fun hm' hmoves => ⟨Y, hm', hmoves, .inl⟩
  -- code that begins to run does not know of the effects in `Y`, and leaves them as they are
  have start : ∀ {c : Code C} {Y : Charges} {w : C.World},
      w.InCustody Y → (sem c).Secures Y (fun _ w' => w'.InCustody Y) w :=
    fun hw => (hsem _).secures hw fun _ _ _ hw' => hw'
  cases h with
  | goOn =>
    cases hm with
    | code hk hp =>
      cases hk with
      | goOn hnext hk => exact same (.code hk (hnext _ _ (.refl _) hp)) (.refl _)
  | restore =>
    cases hm with
    | code hk hp =>
      cases hk with
      | restore hk => exact same (.code hk (InCustody.of_effects hp id rfl)) (.refl _)
  | leave =>
    cases hm with
    | code hk hp =>
      cases hk with
      | leave hk => exact same (.turns hk (InCustody.leave hp _ _)) (.refl _)
      | first hnext hk =>
        refine ⟨_, .started hnext hk (InCustody.leave hp _ _), .refl _, ?_⟩
        exact fun hmem => .inl (mem_cons_of_mem _ hmem)
  | born =>
    cases hm with
    | code hk hp =>
      cases hk with
      | born hnext hk => exact same (.code hk (hnext _ (.refl _) hp)) (.refl _)
    | created hk hnext => exact same (.code hk hnext) (.refl _)
  | inert hop hr =>
    cases hm with
    | code hk hp =>
      obtain ⟨hmoves, hrest⟩ := (Op.secures_of_inert hop).mp hp _ _ hr
      exact same (.code (hk.later hmoves.persists) hrest) hmoves
  | write =>
    cases hm with
    | code hk hp =>
      exact same (.turns (.goOn (fun _ => hp.2 _) hk) (hp.1.of_effects id rfl)) (.refl _)
  | call =>
    cases hm with
    | code hk hp => exact same (.code (.goOn hp.2 hk) (start hp.1)) (.refl _)
  | within =>
    cases hm with
    | code hk hp =>
      exact same (.code (.restore (.goOn hp.2 hk)) (start (hp.1.of_effects id rfl))) (.refl _)
  | @spawn c _ next k w =>
    cases hm with
    | code hk hp =>
      obtain ⟨hw, hstart, hnext⟩ := hp
      cases c with
      -- until its creator goes on, a mount effect is nobody's: it joins those in `Y`
      | refresh i =>
        refine ⟨_, .starting hstart (hnext _) hk (hw.newborn _), .refl _, fun hmem => ?_⟩
        rcases mem_cons.mp hmem with heq | hmem
        · cases heq
          exact .inr hstart
        · exact .inl hmem
      | _ => exact same (.turns (.born (hnext _) hk) (hw.newEffect nofun)) (.refl _)
  | rerun | trigger =>
    cases hm with
    | code hk hp => exact same (.turns (.goOn hp.2 hk) hp.1) (.refl _)
  | drained =>
    cases hm with
    | turns hk hw => exact same (.code hk hw) (.refl _)
    | started hnext hk hw => exact same (.created hk (hnext _ (.refl _) hw)) (.refl _)
  | slot =>
    cases hm with
    | turns hk hw => exact same (.turns hk hw) (.refl _)
  | gone =>
    cases hm with
    | turns hk hw => exact same (.turns hk hw) (.refl _)
    | starting hstart hnext hk hw =>
      refine ⟨_, .started hnext hk hw, .refl _, ?_⟩
      exact fun hmem => .inl (mem_cons_of_mem _ hmem)
  | refused =>
    cases hm with
    | turns hk hw => exact same (.turns hk (hw.of_effects id rfl)) (.refl _)
    | starting hstart hnext hk hw =>
      refine ⟨_, .started hnext hk (hw.of_effects id rfl), .refl _, ?_⟩
      exact fun hmem => .inl (mem_cons_of_mem _ hmem)
  | @enter c e es slots k w hb hd =>
    have hstate : (w.enter e).state = w.state := state_enter w e
    have hmoves : w.state.Moves (w.enter e).state := hstate ▸ .refl _
    cases hm with
    | turns hk hw => exact same (.code (hstate ▸ .leave hk) (start (hw.enter e))) hmoves
    | starting hstart hnext hk hw =>
      exact same (.code (hstate ▸ .first hnext hk) (start (hw.enter _))) hmoves

/-- An effect that is there after a step was there before, or it has just been created. -/
lemma Step.effectBody_cases (h : m.Step sem m') (hb : m'.world.effectBody e = some c) :
    m.world.effectBody e = some c ∨ m.op? = some (.spawn c) := by
  cases h with
  | goOn | restore | born | write | call | within | rerun | trigger | drained | slot | gone
  | refused => exact .inl hb
  | leave => exact .inl (by rwa [← effectBody_leave])
  | enter => exact .inl (by rwa [← effectBody_enter])
  | @spawn c' _ next k w =>
    have hb : (w.newEffect c').2.effectBody e = some c := hb
    rw [effectBody_newEffect] at hb
    split at hb
    · cases hb
      exact .inr rfl
    · exact .inl hb
  | @inert _ w w' k op next r hop hr =>
    have hb : w'.effectBody e = some c := hb
    rcases hop.cases hr with ⟨e', -, rfl⟩ | ⟨e', -, rfl⟩ | ⟨f, -, rfl⟩ | ⟨-, -, -, hrec⟩
    · exact .inl (effectBody_of_dispose e' hb)
    · exact .inl hb
    · exact .inl hb
    · exact .inl (by rwa [effectBody_congr hrec.effects] at hb)

/-- An effect that keeps an instance up to date is created only where the instance is mounted. -/
lemma Step.refresh_cases (h : m.Step sem m') (hm : m.Guarded Y)
    (hb : m'.world.effectBody e = some (.refresh i)) : m.world.effectBody e = some (.refresh i) ∨
      (Code.refresh i : Code C).MayStart m.world.state := by
  refine (h.effectBody_cases hb).imp_right fun hop => ?_
  cases hm with
  | @code Y _ p k w hk hp =>
    cases p with
    | done a => cases hop
    | step op next =>
      -- whoever mounts has set the target first
      cases hop
      obtain ⟨-, hstart, -⟩ := hp
      exact hstart
  | turns | starting | started | created => cases hop

lemma Guarded.mayStart_of_idle (hm : m.Guarded Y) (hidle : m.running = []) (hmem : (e, i) ∈ Y) :
    (Code.refresh i : Code C).MayStart m.world.state := by
  have idle : ∀ {α : Type} {Y : Charges} {s : ViewState C}
      {k : C.Pending α}, k.Guarded Y s → k.running = [] → (e, i) ∉ Y := by
    intro α Y s k hk hrunning hmem
    have hrun := hk.subset_running (mem_map_of_mem hmem)
    rw [hrunning] at hrun
    cases hrun
  cases hm with
  | code hk _ | turns hk _ | started _ hk _ | created hk _ => exact absurd hmem (idle hk hidle)
  | starting hstart _ hk _ =>
    rcases mem_cons.mp hmem with heq | hmem
    · cases heq
      exact hstart
    · exact absurd hmem (idle hk hidle)

lemma Guarded.inCustody (hm : m.Guarded Y) (hop : m.op? = some (.write u)) :
    m.world.InCustody Y := by
  cases hm with
  | @code Y _ p k w hk hp =>
    cases p with
    | done a => cases hop
    | step op next =>
      cases hop
      exact hp.1
  | turns | starting | started | created => cases hop

end Moment

end LiveMarkup
