import LiveMarkup.Proofs.Phases

/-!
# The life of instances in a run

What can one step of a run do to the life of instances? `View.Advance` lists it: it may mount an
instance, take one off its target, detach the handlers of the target, let an instance come to a
phase, or run a hook, and each of these at the place that is meant for it. All other steps are calm.

To know that a step is at its place one has to know what came before it. So at every moment, what
goes on and what waits is orderly, given what has happened so far, `Moment.Orderly`. What programs
in the middle of running hooks still have to run is noted as a debt, and no hook is run that is not
owed.
-/

namespace LiveMarkup

variable {C : Client}

/-- A run comes to a program at its `l`-th moment, in the world `w`, whoever goes on with the
result. -/
def Semantics.ComesTo {S : Signature} (sem : Semantics S) (m0 : Moment S) (q : Program S α)
    (l : Nat) (w : World S) : Prop :=
  ∃ (β : Type) (f : α → Program S β) (k : Pending S β), sem.after m0 l = some (.code (q >>= f) k w)

/-! ## Hooks -/

/-- The hook that an operation runs, and the instance for which it does. -/
def Op.hook? : C.Op → Option (InstanceId × C.Body)
  | .call (.invoke b (.hook i)) | .within _ (.invoke b (.hook i)) | .spawn (.invoke b (.hook i)) =>
    some (i, b)
  | _ => none

@[inherit_doc Op.hook?]
def Moment.hook? (m : C.Moment) : Option (InstanceId × C.Body) :=
  m.op?.bind Op.hook?

lemma Op.IsCalm.hook?_eq_none {op : C.Op} (h : op.IsCalm) : op.hook? = none := by
  have free : ∀ {c : Code C}, c.IsFree → (Op.call c : C.Op).hook? = none ∧
      (∀ e, (Op.within e c : C.Op).hook? = none) ∧
      (Op.spawn c : C.Op).hook? = none := by
    intro c hc
    cases c with
    | invoke b occasion =>
      cases occasion with
      | hook i => exact hc.elim
      | _ => exact ⟨rfl, fun _ => rfl, rfl⟩
    | _ => exact ⟨rfl, fun _ => rfl, rfl⟩
  cases op with
  | call c => exact (free h).1
  | within e c => exact (free h).2.1 e
  | spawn c => exact (free h).2.2
  | _ => rfl

/-- Hooks of an instance for a phase that somebody still has to run. -/
structure Debt (C : Client) where
  phase : Phase
  instanceId : InstanceId
  hooks : List C.Body

namespace Debt

def add (φ : Phase) (i : InstanceId) (bs : List C.Body)
    (o : Phase → InstanceId → List C.Body) : Phase → InstanceId → List C.Body :=
  fun ψ j => if ψ = φ ∧ j = i then bs ++ o ψ j else o ψ j

def owed : List (Debt C) → Phase → InstanceId → List C.Body
  | [] => fun _ _ => []
  | d :: ds => add d.phase d.instanceId d.hooks (owed ds)

@[simp]
lemma add_nil : add φ i [] o = o := by
  funext ψ j
  simp only [add, List.nil_append, ite_self]

lemma add_self : add φ i bs o φ i = bs ++ o φ i := if_pos ⟨rfl, rfl⟩

lemma add_of_ne (h : ¬ (ψ = φ ∧ j = i)) : add φ i bs o ψ j = o ψ j := if_neg h

end Debt

/-! ## What has happened so far -/

namespace View

variable (b : Behaviour C) (m0 : C.Moment) (n : Nat)

/-- An instance has been mounted before the `n`-th moment of a run. -/
def WasMounted (i : InstanceId) : Prop :=
  ∃ l t w, l < n ∧ (semantics b).ComesTo m0 (mountTarget i t) l w

/-- A run came to a program before its `n`-th moment, with `k` waiting. -/
def Passed (k : C.Pending α) (p : View C α) : Prop :=
  ∃ l w, l < n ∧ (semantics b).after m0 l = some (.code p k w)

/-- What waits for a program to end is a run of a mount effect: an effect that keeps an instance up
to date, which has been mounted. The run began before the `n`-th moment. -/
def Refreshes (k : C.Pending α) (i : InstanceId) : Prop :=
  ∃ l e before es slots k' w, l < n ∧ k = .leave e before es slots k' ∧
    (semantics b).after m0 l = some (.turns (e :: es) slots k' w) ∧
    w.effectBody e = some (.refresh i) ∧ WasMounted b m0 l i

/-- The instance is saluted for a phase at the `n`-th moment: it has just been refreshed in a run of
a mount effect and gave markup, or it has just been taken off its target in the course of unmounting
it. -/
def Due : Phase → InstanceId → Prop
  | .mounted, i => ∃ (l : Nat) (html : String) (β : Type) (f : Unit → View C β)
      (k : C.Pending β) (w : C.World) (x : C.Instance),
      n = l + 1 ∧ Refreshes b m0 l k i ∧
      Passed b m0 l k (renderTop i >>= fun r => afterRender i r >>= f) ∧
      (semantics b).after m0 l = some (.code (afterRender i (.markup html) >>= f) k w) ∧
      w.state.instances[i.index]? = some x
  | .unmounted, i => ∃ (β : Type) (f : Unit → View C β) (k : C.Pending β)
      (w : C.World) (x : C.Instance),
      Passed b m0 n k (unmount i >>= f) ∧
      (semantics b).after m0 n = some (.code (farewell i (some x) >>= f) k w) ∧
      w.state.instances[i.index]? = some { x with target := none }

/-- A program that may go on at the `n`-th moment, with `k` waiting: it is orderly, given what has
happened so far. -/
abbrev Fits (k : C.Pending α) (p : View C α) : Prop :=
  p.Orderly (WasMounted b m0 n) (Refreshes b m0 n k) (Passed b m0 n k)

variable {b m0 n}

lemma WasMounted.mono (h : WasMounted b m0 n i) (hn : n ≤ n') : WasMounted b m0 n' i := by
  obtain ⟨l, t, w, hl, hmount⟩ := h
  exact ⟨l, t, w, lt_of_lt_of_le hl hn, hmount⟩

lemma Refreshes.mono (h : Refreshes b m0 n k i) (hn : n ≤ n') : Refreshes b m0 n' k i := by
  obtain ⟨l, e, before, es, slots, k', w, hl, h⟩ := h
  exact ⟨l, e, before, es, slots, k', w, lt_of_lt_of_le hl hn, h⟩

lemma Refreshes.wasMounted (h : Refreshes b m0 n k i) : WasMounted b m0 n i := by
  obtain ⟨l, e, before, es, slots, k', w, hl, -, -, -, hmounted⟩ := h
  exact hmounted.mono hl.le

lemma Passed.mono (h : Passed b m0 n k p) (hn : n ≤ n') : Passed b m0 n' k p := by
  obtain ⟨l, w, hl, hat⟩ := h
  exact ⟨l, w, lt_of_lt_of_le hl hn, hat⟩

end View

/-! ## Orderly moments -/

open View in
/-- What waits is orderly, and owes hooks. -/
inductive Pending.Orderly (b : Behaviour C) (m0 : C.Moment) (n : Nat) :
    List (Debt C) → {α : Type} → C.Pending α → Prop
  | nothing : Orderly b m0 n [] (.nothing : C.Pending α)
  | goOn (hnext : ∀ a, Fits b m0 n k (next a)) (hk : Orderly b m0 n ds k) :
      Orderly b m0 n ds (.goOn next k)
  /-- Hooks have been set going. One of them is running, and the others wait. -/
  | hooks (φ : Phase) (hf : ∀ r, Fits b m0 n k (f r)) (hk : Orderly b m0 n ds k) :
      Orderly b m0 n (⟨φ, i, bs⟩ :: ds) (.goOn (fun _ : α => runHooks i bs >>= f) k)
  | restore (hk : Orderly b m0 n ds k) : Orderly b m0 n ds (.restore before k)
  | leave (hk : Orderly b m0 n ds k) : Orderly b m0 n ds (.leave e before es slots k : C.Pending α)
  | born (hnext : Fits b m0 n k (next e)) (hk : Orderly b m0 n ds k) :
      Orderly b m0 n ds (.born e next k)

open View in
/-- The `n`-th moment of a run, at which everything is orderly that goes on or waits. -/
inductive Moment.Orderly (b : Behaviour C) (m0 : C.Moment) (n : Nat) :
    List (Debt C) → C.Moment → Prop
  | code (hp : Fits b m0 n k p) (hk : k.Orderly b m0 n ds) : Orderly b m0 n ds (.code p k w)
  | turns (hk : k.Orderly b m0 n ds) : Orderly b m0 n ds (.turns es slots k w)
  /-- An instance is about to be taken off its target. -/
  | leaving (h : Passed b m0 n k (unmount i >>= f)) (hx : w.state.instances[i.index]? = some x)
      (hf : ∀ r, Fits b m0 n k (f r)) (hk : k.Orderly b m0 n ds) :
      Orderly b m0 n ds (.code (leave i (some x) >>= fun x => farewell i x >>= f) k w)
  /-- The target that it was on is about to lose its handlers. -/
  | vacating (h : Passed b m0 n k (unmount i >>= f)) (ht : x.target = some t)
      (hx : w.state.instances[i.index]? = some { x with target := none })
      (hf : ∀ r, Fits b m0 n k (f r)) (hk : k.Orderly b m0 n ds) :
      Orderly b m0 n ds (.code (clearHandlers t >>= fun _ => farewell i (some x) >>= f) k w)
  /-- An instance is about to come to a phase. -/
  | rousing (hdue : Due b m0 n φ i) (hy : w.state.instances[i.index]? = some y)
      (hflag : φ.flag y = false) (hsame : y.hooks = x.hooks) (hf : ∀ r, Fits b m0 n k (f r))
      (hk : k.Orderly b m0 n ds) : Orderly b m0 n ds (.code (rouse φ i x >>= f) k w)
  | roused (φ : Phase) {id : HookSetId} (hf : ∀ r, Fits b m0 n k (f r)) (hk : k.Orderly b m0 n ds) :
      Orderly b m0 n (⟨φ, i, φ.hooks (w.state.hookSets[id.index]?.getD {})⟩ :: ds)
        (.code (hooksOf id >>= fun h => runHooks i (φ.hooks h) >>= f) k w)
  | hooks (φ : Phase) (hf : ∀ r, Fits b m0 n k (f r)) (hk : k.Orderly b m0 n ds) :
      Orderly b m0 n (⟨φ, i, bs⟩ :: ds) (.code (runHooks i bs >>= f) k w)

namespace View

lemma Orderly.later (h : Fits b m0 n k p) : Fits b m0 (n + 1) k p :=
  h.mono (fun _ hi => hi.mono n.le_succ) (fun _ hi => hi.mono n.le_succ)
    fun _ hq => hq.mono n.le_succ

end View

lemma Pending.Orderly.later {k : C.Pending α} (h : k.Orderly b m0 n ds) :
    k.Orderly b m0 (n + 1) ds := by
  induction h with
  | nothing => exact .nothing
  | goOn hnext _ ih => exact .goOn (fun a => (hnext a).later) ih
  | hooks φ hf _ ih => exact .hooks φ (fun r => (hf r).later) ih
  | restore _ ih => exact .restore ih
  | leave _ ih => exact .leave ih
  | born hnext _ ih => exact .born hnext.later ih

/-! ## What a step can do -/

/-- The state in which a target has lost its handlers. -/
def View.vacated (t : TargetId) (s : ViewState C) : ViewState C :=
  { s with targets := s.targets.modify t.index fun y => { y with handlers := [] } }

/-- What a step can do to the life of instances, and to the hooks that are owed. -/
inductive View.Advance (b : Behaviour C) (m0 : C.Moment) (n : Nat)
    (m m' : C.Moment) : (o o' : Phase → InstanceId → List C.Body) → Prop
  | calm (hcalm : m.world.state.Calm m'.world.state) (hhook : m.hook? = none) :
      Advance b m0 n m m' o o
  | mounts (hm : m = .code (mountTarget i t >>= f) k w)
      (hstate : m'.world.state = changed i (fun x => { x with target := some t }) w.state) :
      Advance b m0 n m m' o o
  | leaves (hpassed : Passed b m0 n k (unmount i >>= f))
      (hm : m = .code (leave i (some x) >>= fun x => farewell i x >>= f) k w)
      (hx : w.state.instances[i.index]? = some x)
      (hstate : m'.world.state = changed i (fun x => { x with target := none }) w.state) :
      Advance b m0 n m m' o o
  | vacates (hpassed : Passed b m0 n k (unmount i >>= f)) (ht : x.target = some t)
      (hm : m = .code (clearHandlers t >>= fun _ => farewell i (some x) >>= f) k w)
      (hstate : m'.world.state = vacated t w.state) : Advance b m0 n m m' o o
  | rouses (hdue : Due b m0 n φ i) (hx : m.world.state.instances[i.index]? = some x)
      (hflag : φ.flag x = false) (hstate : m'.world.state = changed i φ.mark m.world.state)
      (hhook : m.hook? = none) : Advance b m0 n m m' o (Debt.add φ i (m.world.state.hooksFor φ i) o)
  | hook (φ : Phase) (hhook : m.hook? = some (i, body)) (hstate : m'.world.state = m.world.state) :
      Advance b m0 n m m' (Debt.add φ i (body :: bs) o) (Debt.add φ i bs o)

namespace View

variable {ds : List (Debt C)}

section Next

variable {k : C.Pending α}

section

variable (b)

lemma next_renderTop (i : InstanceId) {f : Rendered → View C α} :
    (Moment.code (renderTop i >>= f) k w).next (semantics b) =
      some (.code ((instance? i >>= found i) >>= f) k { w with state := emptied w.state }) := by
  rw [renderTop_eq]
  rfl

lemma next_afterRender (i : InstanceId) (html : String) :
    (Moment.code (afterRender i (.markup html) >>= f) k w).next (semantics b) =
      some (.code (salute .mounted i w.state.instances[i.index]? >>= f) k w) := by
  rw [afterRender_markup]
  rfl

lemma next_mountTarget (i : InstanceId) (t : TargetId) :
    (Moment.code (mountTarget i t >>= f) k w).next (semantics b) =
      some (.code (Program.perform (S := C.signature) (.spawn (.refresh i)) >>= fun e =>
        instance? i >>= fun x => adopt i e (x.bind (·.target)) (x.bind (·.mountEffect)) >>= f) k
        { w with state := changed i (fun x => { x with target := some t }) w.state }) := by
  rw [mountTarget_eq]
  rfl

lemma next_unmount (i : InstanceId) : (Moment.code (unmount i >>= f) k w).next (semantics b) =
      some (.code (dismiss i (w.state.effectOf i) >>= fun _ =>
        takeOff i >>= fun x => farewell i x >>= f) k w) := by
  rw [unmount_bind]
  rfl

lemma next_leave (i : InstanceId) (x : C.Instance) :
    (Moment.code (leave i (some x) >>= fun x => farewell i x >>= f) k w).next (semantics b) =
      some (.code (vacate x.target >>= fun _ => farewell i (some x) >>= f) k
        { w with state := changed i (fun x => { x with target := none }) w.state }) := by
  rw [leave]
  cases x.target <;> rfl

lemma next_rouse (φ : Phase) (i : InstanceId) (x : C.Instance) :
    (Moment.code (rouse φ i x >>= f) k w).next (semantics b) =
      some (.code (hooksOf x.hooks >>= fun h => runHooks i (φ.hooks h) >>= f) k
        { w with state := changed i φ.mark w.state }) :=
  rfl

end

end Next

variable {op : C.Op}

lemma orderly_salute (hdue : Due b m0 n φ i) (hy : w.state.instances[i.index]? = some y)
    (hflag : φ.flag y = φ.flag x) (hsame : y.hooks = x.hooks) (hf : ∀ r, Fits b m0 n k (f r))
    (hk : k.Orderly b m0 n ds) :
    Moment.Orderly b m0 n ds (.code (salute φ i (some x) >>= f) k w) := by
  rw [salute]
  split
  · exact .code (hf ()) hk
  · rename_i hnot
    exact .rousing hdue hy (hflag.trans (Bool.eq_false_of_not_eq_true hnot)) hsame hf hk

lemma calm_of_inert (hop : op.IsCalm) (hinert : op.IsInert)
    (hr : op.perform call w = some (r, w')) : w.state.Calm w'.state := by
  rcases hinert.cases hr with ⟨e, rfl, rfl⟩ | ⟨e, rfl, rfl⟩ | ⟨f, rfl, rfl⟩ | ⟨-, -, -, hrec⟩
  · rw [World.state_dispose]
    exact .refl _
  · exact .refl _
  · exact hop.1 w.state
  · rw [hrec.state]
    exact .refl _

lemma orderly_of_calm (hb : b.Abides) (hop : op.IsCalm) (hnext : ∀ r, Fits b m0 n k (next r))
    (hk : k.Orderly b m0 n ds)
    (hstep : (Moment.code (.step op next) k w).next (semantics b) = some m') :
    Moment.Orderly b m0 (n + 1) ds m' ∧ w.state.Calm m'.world.state := by
  have free : ∀ {c : Code C} {R : InstanceId → Prop} {H : View C c.Reply → Prop}, c.IsFree →
      Orderly (WasMounted b m0 (n + 1)) R H (semantics b c) := by
    intro c R H hc
    refine orderly_semantics hb fun i hi => ?_
    rw [hi] at hc
    exact hc.elim
  cases Moment.step_of_next hstep with
  | inert hinert hr =>
    exact ⟨.code (hnext _).later hk.later, calm_of_inert hop hinert hr⟩
  | write => exact ⟨.turns (.goOn (fun _ => (hnext _).later) hk.later), .refl _⟩
  | call => exact ⟨.code (free hop) (.goOn (fun r => (hnext r).later) hk.later), .refl _⟩
  | within =>
    exact ⟨.code (free hop) (.restore (.goOn (fun r => (hnext r).later) hk.later)), .refl _⟩
  | spawn => exact ⟨.turns (.born (hnext _).later hk.later), .refl _⟩
  | rerun | trigger => exact ⟨.turns (.goOn (fun r => (hnext r).later) hk.later), .refl _⟩

lemma orderly_resume {k : C.Pending α} (hk : k.Orderly b m0 n ds)
    (hstep : k.resume a w = some m') :
    Moment.Orderly b m0 (n + 1) ds m' ∧ m'.world.state = w.state := by
  cases hk with
  | nothing => cases hstep
  | goOn hnext hk =>
    cases hstep
    exact ⟨.code (hnext a).later hk.later, rfl⟩
  | hooks φ hf hk =>
    cases hstep
    exact ⟨.hooks φ (fun r => (hf r).later) hk.later, rfl⟩
  | restore hk =>
    cases hstep
    exact ⟨.code (.done a) hk.later, rfl⟩
  | leave hk =>
    cases hstep
    exact ⟨.turns hk.later, rfl⟩
  | born hnext hk =>
    cases hstep
    exact ⟨.code hnext.later hk.later, rfl⟩

lemma advance_code (hb : b.Abides) (hp : Fits b m0 n k p) (hk : k.Orderly b m0 n ds)
    (hm : (semantics b).after m0 n = some (.code p k w))
    (hstep : (Moment.code p k w).next (semantics b) = some m') :
    ∃ ds', Moment.Orderly b m0 (n + 1) ds' m' ∧
      Advance b m0 n (.code p k w) m' (Debt.owed ds) (Debt.owed ds') := by
  have same : ∀ {m : C.Moment}, Moment.Orderly b m0 (n + 1) ds m' →
      m.world.state.Calm m'.world.state → m.hook? = none →
      ∃ ds', Moment.Orderly b m0 (n + 1) ds' m' ∧
        Advance b m0 n m m' (Debt.owed ds) (Debt.owed ds') :=
    fun hm' hcalm hhook => ⟨ds, hm', .calm hcalm hhook⟩
  -- after a diagnostic nothing is done, and the step is one of the program that follows: this is what
  -- the induction is for
  induction hp with
  | done a =>
    obtain ⟨hm', hstate⟩ := orderly_resume hk hstep
    exact same hm' (hstate ▸ .refl _) rfl
  | @step op next hop hnext =>
    obtain ⟨hm', hcalm⟩ := orderly_of_calm hb hop hnext hk hstep
    exact same hm' hcalm hop.hook?_eq_none
  | @refreshing i f hi hf =>
    have hpassed : Passed b m0 (n + 1) k (renderTop i >>= fun r => afterRender i r >>= f) :=
      ⟨n, w, n.lt_succ_self, hm⟩
    cases (next_renderTop b i).symm.trans hstep
    refine same (.code (.bind (.of_calm ?_) fun r => ?_) hk.later) (.of_eq rfl rfl) rfl
    · exact (calm_instance? i).bind fun x => calm_found i x
    · exact .refreshed r (hi.mono n.le_succ) hpassed fun r => (hf r).later
  | @refreshed i f r hi hpassed hf ih =>
    cases r with
    | diagnostic d => exact ih () hm hstep
    | markup html =>
      cases (next_afterRender b i html).symm.trans hstep
      refine same ?_ (.refl _) rfl
      cases hx : w.state.instances[i.index]? with
      | none => exact .code (hf ()).later hk.later
      | some x =>
        have hdue : Due b m0 (n + 1) .mounted i :=
          ⟨n, html, _, f, k, w, x, rfl, hi, hpassed, hm, hx⟩
        exact orderly_salute hdue hx rfl rfl (fun r => (hf r).later) hk.later
  | @mountTarget f i t hf =>
    have hmounted : WasMounted b m0 (n + 1) i := ⟨n, t, w, n.lt_succ_self, _, f, k, hm⟩
    cases (next_mountTarget b i t).symm.trans hstep
    refine ⟨ds, .code (.spawn hmounted fun e => ?_) hk.later, .mounts rfl rfl⟩
    refine Orderly.bind (p := instance? i) (.of_calm (calm_instance? i)) fun x => ?_
    exact .bind (.of_calm (calm_adopt i e _ _)) fun r => (hf r).later
  | spawn hi hnext =>
    cases hstep
    exact same (.turns (.born (hnext _).later hk.later)) (.refl _) rfl
  | @unmount f i hf =>
    have hpassed : Passed b m0 (n + 1) k (unmount i >>= f) := ⟨n, w, n.lt_succ_self, hm⟩
    cases (next_unmount b i).symm.trans hstep
    refine same (.code (.bind (.of_calm (calm_dismiss i _)) fun _ => ?_) hk.later) (.refl _) rfl
    exact .takeOff hpassed fun r => (hf r).later
  | @takeOff i f hpassed hf =>
    have hnext : (Moment.code (takeOff i >>= fun x => farewell i x >>= f) k w).next (semantics b) =
        some (.code (leave i w.state.instances[i.index]? >>= fun x => farewell i x >>= f) k w) :=
      rfl
    cases hnext.symm.trans hstep
    refine same ?_ (.refl _) rfl
    cases hx : w.state.instances[i.index]? with
    | none => exact .code (hf ()).later hk.later
    | some x => exact .leaving (hpassed.mono n.le_succ) hx (fun r => (hf r).later) hk.later

lemma orderly_farewell
    (hm : (semantics b).after m0 n = some (.code (farewell i (some x) >>= f) k w))
    (hpassed : Passed b m0 n k (unmount i >>= f))
    (hx : w.state.instances[i.index]? = some { x with target := none })
    (hf : ∀ r, Fits b m0 n k (f r)) (hk : k.Orderly b m0 n ds) :
    Moment.Orderly b m0 n ds (.code (farewell i (some x) >>= f) k w) := by
  have hdue : Due b m0 n .unmounted i := ⟨_, f, k, w, x, hpassed, hm, hx⟩
  exact orderly_salute hdue hx rfl rfl hf hk

/-- Where everything is orderly it stays so, and the step is one of those that are meant to be. -/
lemma advance (hb : b.Abides) (h : Moment.Orderly b m0 n ds m)
    (heffects : ∀ e i, m.world.effectBody e = some (.refresh i) → WasMounted b m0 n i)
    (hm : (semantics b).after m0 n = some m) (hstep : m.next (semantics b) = some m') :
    ∃ ds', Moment.Orderly b m0 (n + 1) ds' m' ∧
      Advance b m0 n m m' (Debt.owed ds) (Debt.owed ds') := by
  have hm' := Semantics.after_next hm hstep
  cases h with
  | code hp hk => exact advance_code hb hp hk hm hstep
  | @turns _ es slots k w hk =>
    cases Moment.step_of_next hstep with
    | drained => exact ⟨ds, .code (.done ()) hk.later, .calm (.refl _) rfl⟩
    | slot | gone | refused => exact ⟨ds, .turns hk.later, .calm (.refl _) rfl⟩
    | @enter c e es _ _ _ hbody =>
      refine ⟨ds, .code (orderly_semantics hb fun i hi => ?_) (.leave hk.later), .calm ?_ rfl⟩
      · have hbody : w.effectBody e = some (.refresh i) := hi ▸ hbody
        exact ⟨n, e, _, es, slots, k, w, n.lt_succ_self, rfl, hm, hbody, heffects e i hbody⟩
      · rw [Moment.world, Moment.world, World.state_enter]
        exact .refl _
  | @leaving _ k i f x _ w hpassed hx hf hk =>
    have hoff := getElem?_modify_self hx fun x : C.Instance => { x with target := none }
    cases (next_leave b i x).symm.trans hstep
    refine ⟨ds, ?_, .leaves hpassed rfl hx rfl⟩
    have hlater := fun r => (hf r).later
    cases ht : x.target with
    | none =>
      rw [ht] at hm'
      exact orderly_farewell hm' (hpassed.mono n.le_succ) hoff hlater hk.later
    | some t => exact .vacating (hpassed.mono n.le_succ) ht hoff hlater hk.later
  | vacating hpassed ht hx hf hk =>
    cases hstep
    refine ⟨ds, ?_, .vacates hpassed ht rfl rfl⟩
    exact orderly_farewell hm' (hpassed.mono n.le_succ) hx (fun r => (hf r).later) hk.later
  | @rousing φ i y _ k f _ x w hdue hy hflag hsame hf hk =>
    cases (next_rouse b φ i x).symm.trans hstep
    have hhooks : w.state.hooksFor φ i =
        φ.hooks (w.state.hookSets[x.hooks.index]?.getD {}) := by
      rw [ViewState.hooksFor, hy, ← hsame]
      rfl
    refine ⟨_, .roused φ (fun r => (hf r).later) hk.later, ?_⟩
    rw [Debt.owed]
    rw [← hhooks]
    exact .rouses hdue hy hflag rfl rfl
  | roused φ hf hk =>
    cases hstep
    exact ⟨_, .hooks φ (fun r => (hf r).later) hk.later, .calm (.refl _) rfl⟩
  | @hooks _ k f ds i bs w φ hf hk =>
    cases bs with
    | nil =>
      rw [Debt.owed, Debt.add_nil]
      exact advance_code hb (hf ()) hk hm hstep
    | cons body bs =>
      -- the hook itself is code of the application; the others wait behind it
      cases hstep
      have hbody : Fits b m0 (n + 1) (.restore w.active (.goOn (fun _ => runHooks i bs >>= f) k))
          (semantics b (.invoke body (.hook i))) :=
        orderly_semantics hb (c := .invoke body (.hook i)) (by rintro _ ⟨⟩)
      refine ⟨⟨φ, i, bs⟩ :: ds, .code hbody (.restore ?_), .hook φ rfl rfl⟩
      exact .hooks φ (fun r => (hf r).later) hk.later

end View

/-! ## Runs -/

/-- What the next operation can be at an orderly moment. -/
inductive Op.Occurs (b : Behaviour C) (m0 : C.Moment) (n : Nat) : C.Op → Prop
  | calm (h : op.IsCalm) : Occurs b m0 n op
  | spawn (h : View.WasMounted b m0 n i) : Occurs b m0 n (.spawn (.refresh i))
  | modify (h : ∀ s, (f s).pushed = s.pushed) : Occurs b m0 n (.modify f)
  | hook : Occurs b m0 n (.within none (.invoke body (.hook i)))

namespace View

lemma occurs_of_fits (h : Fits b m0 n k p) (hop : (Moment.code p k w).op? = some op) :
    op.Occurs b m0 n := by
  induction h with
  | done a => cases hop
  | step h _ =>
    cases hop
    exact .calm h
  | @refreshing i f _ _ =>
    have hop : (Moment.code (renderTop i >>= fun r => afterRender i r >>= f) k w).op? = some op :=
      hop
    rw [renderTop_eq] at hop
    cases hop
    exact .calm ⟨fun _ => .of_eq rfl rfl, .empties⟩
  | @refreshed i f r _ _ _ ih =>
    cases r with
    | diagnostic d => exact ih () hop
    | markup html =>
      have hop : (Moment.code (afterRender i (.markup html) >>= f) k w).op? = some op := hop
      rw [afterRender_markup] at hop
      cases hop
      exact .calm trivial
  | @mountTarget f i t _ =>
    have hop : (Moment.code (mountTarget i t >>= f) k w).op? = some op := hop
    rw [mountTarget_eq] at hop
    cases hop
    exact .modify fun _ => rfl
  | spawn hi _ =>
    cases hop
    exact .spawn hi
  | @unmount f i _ =>
    have hop : (Moment.code (unmount i >>= f) k w).op? = some op := hop
    rw [unmount_bind] at hop
    cases hop
    exact .calm trivial
  | takeOff =>
    cases hop
    exact .calm trivial

lemma occurs_of_orderly (h : Moment.Orderly b m0 n ds m) (hop : m.op? = some op) :
    op.Occurs b m0 n := by
  cases h with
  | code hp _ => exact occurs_of_fits hp hop
  | turns => cases hop
  | @leaving _ k i f x _ w =>
    rw [leave] at hop
    cases hop
    exact .modify fun _ => rfl
  | vacating | rousing =>
    cases hop
    exact .modify fun _ => rfl
  | roused =>
    cases hop
    exact .calm trivial
  | @hooks _ k f _ i bs w φ hf hk =>
    cases bs with
    | nil => exact occurs_of_fits (hf ()) hop
    | cons body bs =>
      cases hop
      exact .hook

/-- Every moment is orderly, and an effect keeps an instance up to date only if the instance has
been mounted. -/
lemma orderly_after (hb : b.Abides) (hp : p.Abides) (hm : RunsTo b p c n m) :
    (∃ ds, Moment.Orderly b (opening p c) n ds m) ∧
      ∀ e i, m.world.effectBody e = some (.refresh i) → WasMounted b (opening p c) n i := by
  induction n generalizing m with
  | zero =>
    cases hm
    refine ⟨⟨[], .code hp.orderly .nothing⟩, fun e i he => ?_⟩
    exact absurd he (by simp [opening, Moment.world, World.effectBody])
  | succ n ih =>
    obtain ⟨m1, hm1, hstep⟩ := Semantics.after_succ_cases hm
    obtain ⟨⟨ds, hds⟩, heffects⟩ := ih hm1
    obtain ⟨ds', hds', -⟩ := advance hb hds heffects hm1 (Semantics.next_of_after hm1 hm)
    refine ⟨⟨ds', hds'⟩, fun e i he => ?_⟩
    rcases hstep.effectBody_cases he with hbefore | hop
    · exact (heffects e i hbefore).mono n.le_succ
    · cases occurs_of_orderly hds hop with
      | calm h => exact h.elim
      | spawn hi => exact hi.mono n.le_succ

lemma advance_after (hb : b.Abides) (hp : p.Abides) (hds : Moment.Orderly b (opening p c) n ds m)
    (hm : RunsTo b p c n m) (hm' : RunsTo b p c (n + 1) m') :
    ∃ ds', Moment.Orderly b (opening p c) (n + 1) ds' m' ∧
      Advance b (opening p c) n m m' (Debt.owed ds) (Debt.owed ds') :=
  advance hb hds (orderly_after hb hp hm).2 hm (Semantics.next_of_after hm hm')

lemma exists_advance (hb : b.Abides) (hp : p.Abides) (hm : RunsTo b p c n m)
    (hm' : RunsTo b p c (n + 1) m') : ∃ o o', Advance b (opening p c) n m m' o o' := by
  obtain ⟨⟨ds, hds⟩, -⟩ := orderly_after hb hp hm
  obtain ⟨ds', -, hadvance⟩ := advance_after hb hp hds hm hm'
  exact ⟨_, _, hadvance⟩

end View

end LiveMarkup
