import LiveMarkup.Proofs.Housekeeping

/-!
# Unmounted means silent

An instance may be unmounted at any time: from outside, from one of its hooks, or by a method that
its template calls in the middle of a rendering, with its mount effect running at any depth and not
even stored yet. The first thing that happens is that the instance is taken off its target. From
then on nothing writes to a target on its behalf, as only instances that are mounted write. Its
effect may still be running, but once all runs are over no such effect is left: it would be in
custody, and stored with an instance that has none.

The target keeps no handlers unless another instance is mounted on it too, which may render at any
time and attaches its own.
-/

namespace LiveMarkup

open View Semantics ViewState
open Client (single)

variable {C : Client} {α β : Type}
variable {x : C.Instance}

open Program

/-! ## Taking an instance off its target -/

namespace View

lemma run_endMountEffect (call : C.Caller) (w : C.World) (i : InstanceId) :
    ∃ w', (endMountEffect i).run call w = some ((), w') ∧ w'.state.targets = w.state.targets ∧
      w'.state.targetOf i = w.state.targetOf i := by
  change ∃ w', run call (dismiss i (w.state.effectOf i)) w = _ ∧ _
  cases w.state.effectOf i with
  | none => exact ⟨w, rfl, rfl, rfl⟩
  | some e =>
    refine ⟨_, rfl, ?_, ?_⟩
    · rw [World.state_dispose]
    · rw [World.state_dispose]
      exact targetOf_changed_self _ _ _

/-- Taking an instance off its target: it is mounted nowhere, and the target is as it was but for
its handlers. -/
lemma run_detach (call : C.Caller) (w : C.World) (i : InstanceId) :
    ∃ r w', (detach i).run call w = some (r, w') ∧ w'.state.targetOf i = none ∧
      ∀ {t y}, w.state.targetOf i = some t → w.state.targets[t.index]? = some y →
        w'.state.targets[t.index]? = some { y with handlers := [] } := by
  obtain ⟨w1, hend, htargets, htarget⟩ := run_endMountEffect call w i
  rw [detach, run_bind, hend, Option.bind_some, run_bind, run_instance?, Option.bind_some,
    ← htarget, ← htargets]
  cases hx : w1.state.instances[i.index]? with
  | none =>
    have hnone : w1.state.targetOf i = none := by rw [targetOf, hx]; rfl
    refine ⟨none, w1, rfl, hnone, fun ht => ?_⟩
    rw [hnone] at ht
    cases ht
  | some x =>
    have hnone : (changed i (fun x => { x with target := none }) w1.state).targetOf i = none := by
      rw [targetOf_changed_self, hx]
      rfl
    have hof : w1.state.targetOf i = x.target := by rw [targetOf, hx]; rfl
    rw [hof, leave]
    cases x.target with
    | none =>
      refine ⟨some x, { w1 with state := changed i (fun x => { x with target := none }) w1.state },
        rfl, hnone, ?_⟩
      rintro t y ⟨⟩
    | some t =>
      refine ⟨some x, { w1 with state := {
        changed i (fun x => { x with target := none }) w1.state with
        targets := w1.state.targets.modify t.index fun y => { y with handlers := [] } } },
        rfl, hnone, ?_⟩
      rintro t' y ⟨⟩ hy
      exact getElem?_modify_self hy _

end View

/-! ## Instances that stay unmounted -/

/-- A step mounts an instance if the instance is on a target after it on which it was not before. -/
def Moment.Mounts (i : InstanceId) (m m' : C.Moment) : Prop :=
  m'.world.state.targetOf i ≠ none ∧ m'.world.state.targetOf i ≠ m.world.state.targetOf i

namespace View

variable {b : Behaviour C} {p : View C α} {c : C.State} {l : Nat}
variable {m : C.Moment} {i : InstanceId}

/-- No step of a run mounts an instance from the `l`-th moment to the `n`-th. -/
def StaysOff (b : Behaviour C) (p : View C α) (c : C.State) (i : InstanceId) (l n : Nat) : Prop :=
  ∀ {j m m'}, l ≤ j → j < n → (semantics b).after (opening p c) j = some m →
    (semantics b).after (opening p c) (j + 1) = some m' → ¬ m.Mounts i m'

/-- Nobody else is mounted on a target of an instance from the `l`-th moment to the `n`-th. -/
def HasToItself (b : Behaviour C) (p : View C α) (c : C.State) (i : InstanceId) (t : TargetId)
    (l n : Nat) : Prop :=
  ∀ {j m}, l ≤ j → j < n → (semantics b).after (opening p c) j = some m →
    ∀ i', m.world.state.targetOf i' = some t → i' = i

lemma StaysOff.mono (h : StaysOff b p c i l n) (hl : l ≤ l') (hn : n' ≤ n) :
    StaysOff b p c i l' n' :=
  fun hj hjn => h (hl.trans hj) (lt_of_lt_of_le hjn hn)

lemma targetOf_of_staysOff (hm : RunsTo b p c l m) (hnone : m.world.state.targetOf i = none)
    (hoff : StaysOff b p c i l n) (hl : l ≤ n) (hm' : RunsTo b p c n m') :
    m'.world.state.targetOf i = none := by
  refine after_stretch (P := fun m : C.Moment => m.world.state.targetOf i = none) hm hnone ?_ hl hm'
  intro j m1 m2 hj hjn hm1 hm2 hnone
  by_contra hsome
  exact hoff hj hjn hm1 hm2 ⟨hsome, fun heq => hsome (heq.trans hnone)⟩

lemma instance_after (hb : b.Uses) (hp : p.Uses) (hm : RunsTo b p c l m)
    (hx : m.world.state.instances[i.index]? = some x) (hl : l ≤ n) (hm' : RunsTo b p c n m') :
    ∃ x', m'.world.state.instances[i.index]? = some x' := by
  refine after_stretch (P := fun m : C.Moment => ∃ x, m.world.state.instances[i.index]? = some x)
    hm ⟨x, hx⟩ ?_ hl hm'
  rintro j m1 m2 - - hm1 hm2 ⟨y, hy⟩
  have hmoves := moves_after hb hp hm1 (step_of_after hm1 hm2)
  obtain ⟨y', hy', -⟩ := hmoves.persists i.index y hy
  exact ⟨y', hy'⟩

variable {y : Target}

/-- A target that an unmounted instance had to itself stays as it was left, without handlers. -/
lemma target_of_staysOff (hb : b.Uses) (hp : p.Uses) (hm : RunsTo b p c l m)
    (hnone : m.world.state.targetOf i = none) (hoff : StaysOff b p c i l n)
    (halone : HasToItself b p c i t l n)
    (hy : m.world.state.targets[t.index]? = some { y with handlers := [] }) (hl : l ≤ n)
    (hm' : RunsTo b p c n m') :
    m'.world.state.targets[t.index]? = some { y with handlers := [] } := by
  refine after_stretch (P := fun m : C.Moment =>
      m.world.state.targets[t.index]? = some { y with handlers := [] }) hm hy ?_ hl hm'
  intro j m1 m2 hj hjn hm1 hm2 hy
  have htreats := (moves_after hb hp hm1 (step_of_after hm1 hm2)).targets t
  rw [hy] at htreats
  generalize m2.world.state.targets[t.index]? = y2 at htreats
  cases htreats with
  | leaves => rfl
  | detaches => rfl
  | @writes j' x hx ht =>
    -- whoever writes is mounted on the target, and the instance is mounted nowhere
    have hj' : m1.world.state.targetOf j' = some t := Option.bind_eq_some_iff.mpr ⟨x, hx, ht⟩
    have hoff' : StaysOff b p c i l j := hoff.mono le_rfl hjn.le
    rw [halone hj hjn hm1 j' hj', targetOf_of_staysOff hm hnone hoff' hj hm1] at hj'
    cases hj'

lemma counted_after (hm : RunsTo b p c n m) : m.Counted [] := by
  refine after_keeps Moment.Step.counted hm fun e => ?_
  rfl

section

variable (hb : b.Uses) (hp : p.Uses) (hm : RunsTo b p c l m)
  (hx : m.world.state.instances[i.index]? = some x) (hnone : m.world.state.targetOf i = none)
include hb hp hm hx hnone

lemma not_mayStart_of_staysOff (hoff : StaysOff b p c i l n) (hl : l ≤ n)
    (hm' : RunsTo b p c n m') : ¬ (Code.refresh i : Code C).MayStart m'.world.state := by
  intro hstart
  obtain ⟨x', hx'⟩ := instance_after hb hp hm hx hl hm'
  have hnone' := targetOf_of_staysOff hm hnone hoff hl hm'
  rw [targetOf, hx'] at hnone'
  exact hstart x' hx' hnone'

/-- Once no effect has been running, no first run of an effect of an unmounted instance goes on. -/
lemma guarded_of_staysOff (hidle : ∀ e, m.world.effectDepth e = 0) (hoff : StaysOff b p c i l n)
    (hl : l ≤ n) (hm' : RunsTo b p c n m') : ∃ Y, m'.Guarded Y ∧ ∀ e, (e, i) ∉ Y := by
  have hnot : ∀ {j m'}, l ≤ j → j ≤ n → (semantics b).after (opening p c) j = some m' →
      ¬ (Code.refresh i : Code C).MayStart m'.world.state := fun hj hjn =>
    not_mayStart_of_staysOff hb hp hm hx hnone (hoff.mono le_rfl hjn) hj
  refine after_stretch (P := fun m : C.Moment => ∃ Y, m.Guarded Y ∧ ∀ e, (e, i) ∉ Y) hm ?_ ?_ hl hm'
  · obtain ⟨Y, hguarded⟩ := guarded_after hb hp hm
    have hrunning := (counted_after hm).running_eq_nil hidle
    refine ⟨Y, hguarded, fun e hmem => ?_⟩
    exact hnot le_rfl hl hm (hguarded.mayStart_of_idle hrunning hmem)
  · rintro j m1 m2 hj hjn hm1 hm2 ⟨Y1, hguarded, habsent⟩
    obtain ⟨Y2, hguarded2, -, hnew⟩ :=
      (step_of_after hm1 hm2).guarded (careful_semantics hb) hguarded
    refine ⟨Y2, hguarded2, fun e hmem => ?_⟩
    exact (hnew hmem).elim (habsent e) (hnot hj hjn.le hm1)

end

/-- From the first data write on after no effect has been running, no effect brings an unmounted
instance up to date. -/
lemma effects_of_staysOff (hb : b.Uses) (hp : p.Uses) (hm : RunsTo b p c l m)
    (hx : m.world.state.instances[i.index]? = some x) (hnone : m.world.state.targetOf i = none)
    (hidle : ∀ e, m.world.effectDepth e = 0) (hoff : StaysOff b p c i l n) (hl : l ≤ n0)
    (hn : n0 ≤ n) (hm0 : RunsTo b p c n0 m0) (hop : m0.op? = some (.write u))
    (hm' : RunsTo b p c n m') (e : EffectId) : m'.world.effectBody e ≠ some (.refresh i) := by
  have hoff0 : StaysOff b p c i l n0 := hoff.mono le_rfl hn
  obtain ⟨Y, hguarded, habsent⟩ := guarded_of_staysOff hb hp hm hx hnone hidle hoff0 hl hm0
  have hcustody := hguarded.inCustody hop
  have hstart : m0.world.effectBody e ≠ some (.refresh i) := by
    intro hbody
    have hstored := (hcustody.stored hbody).resolve_right (habsent e)
    rw [hcustody.mounted (targetOf_of_staysOff hm hnone hoff0 hl hm0)] at hstored
    cases hstored
  refine after_stretch (P := fun m : C.Moment => m.world.effectBody e ≠ some (.refresh i))
    hm0 hstart ?_ hn hm'
  intro j m1 m2 hj hjn hm1 hm2 hbefore hbody
  obtain ⟨Y1, hguarded1⟩ := guarded_after hb hp hm1
  -- an effect is made for an instance that is mounted, which this one is not
  rcases (step_of_after hm1 hm2).refresh_cases hguarded1 hbody with hbody | hmounted
  · exact hbefore hbody
  · have hoff1 : StaysOff b p c i l j := hoff.mono le_rfl hjn.le
    exact not_mayStart_of_staysOff hb hp hm hx hnone hoff1 (hl.trans hj) hm1 hmounted

lemma written_of_step (hb : b.Uses) (hp : p.Uses) (hm : RunsTo b p c n m)
    (hnext : m.next (semantics b) = some m') (hy : m.world.state.targets[t.index]? = some y)
    (hy' : m'.world.state.targets[t.index]? = some y')
    (hwritten : y'.writes ≠ y.writes ∨ y'.content ≠ y.content) :
    ∃ j x html, m.world.state.targetOf j = some t ∧
      m.world.state.instances[j.index]? = some x ∧ y' = rewritten j x.data html y := by
  have htreats := (moves_after hb hp hm (Moment.step_of_next hnext)).targets t
  rw [hy, hy'] at htreats
  cases htreats with
  | leaves | detaches => exact hwritten.elim (absurd rfl) (absurd rfl)
  | @writes j x hx ht html =>
    exact ⟨j, x, html, Option.bind_eq_some_iff.mpr ⟨x, hx, ht⟩, hx, rfl⟩

lemma detached_of_unmount (hl : RunsTo b p c l (.code (unmount i >>= f) k w))
    (hret : (unmount i).run ((semantics b).caller bound) w = some ((), w1)) :
    ∃ d0 d, d0 ≤ d ∧ RunsTo b p c (l + d) (.code (f ()) k w1) ∧
      ∃ m, RunsTo b p c (l + d0) m ∧
        m.world.state.targetOf i = none ∧
        ∀ {t y}, w.state.targetOf i = some t → w.state.targets[t.index]? = some y →
          m.world.state.targets[t.index]? = some { y with handlers := [] } := by
  obtain ⟨r, w0, hdetach, hnone, htargets⟩ := run_detach ((semantics b).caller bound) w i
  rw [unmount_eq, bind_assoc] at hl
  rw [unmount_eq, run_bind, hdetach, Option.bind_some] at hret
  obtain ⟨d0, hd0⟩ := leads_bind hdetach (fun r => farewell i r >>= f) k
  obtain ⟨d1, hd1⟩ := leads_bind hret f k
  have hoff := (after_from hl d0).trans hd0
  refine ⟨d0, d0 + d1, Nat.le_add_right _ _, ?_, _, hoff, hnone, htargets⟩
  rw [RunsTo, ← Nat.add_assoc, after_from hoff, hd1]

/-- Whenever an instance is unmounted, at any moment of any run of an application that leaves
instances and targets to the view layer: from the return of `unmount` until the instance is mounted
again,

* the instance is mounted nowhere, and content that a target gets comes from another instance;
* the target that it was mounted on has no handlers and the content that it had, as long as no other
  instance is mounted on it;
* once no effect has been running, no data write renders it any more: from the next write on, wherever
  that is made, there is no effect that renders the instance. -/
theorem unmounted_is_silent (hb : b.Uses) (hp : p.Uses) {f : Unit → View C β}
    {k : C.Pending β} {w w₁ : C.World}
    (hl : (semantics b).after (opening p c) l = some (.code (unmount i >>= f) k w))
    (hi : i.index < w.state.instances.size) {bound : Nat}
    (hret : (unmount i).run ((semantics b).caller bound) w = some ((), w₁)) :
    ∃ d, (semantics b).after (opening p c) (l + d) = some (.code (f ()) k w₁) ∧
      ∀ n m, l + d ≤ n → (semantics b).after (opening p c) n = some m → StaysOff b p c i l n →
        (m.world.state.targetOf i = none ∧
          ∀ m' t y y', m.next (semantics b) = some m' →
            m.world.state.targets[t.index]? = some y → m'.world.state.targets[t.index]? = some y' →
            y'.writes ≠ y.writes ∨ y'.content ≠ y.content →
            ∃ j x html, j ≠ i ∧ m.world.state.targetOf j = some t ∧
              m.world.state.instances[j.index]? = some x ∧ y' = rewritten j x.data html y) ∧
        (∀ t y, w.state.targetOf i = some t → w.state.targets[t.index]? = some y →
          HasToItself b p c i t l n →
            m.world.state.targets[t.index]? = some { y with handlers := [] }) ∧
        ∀ n₀ m₀ n₁ m₁ u, l + d ≤ n₀ → (semantics b).after (opening p c) n₀ = some m₀ →
          (∀ e, m₀.world.effectDepth e = 0) → n₀ ≤ n₁ → n₁ ≤ n →
          (semantics b).after (opening p c) n₁ = some m₁ → m₁.op? = some (.write u) →
            ∀ e, m.world.effectBody e ≠ some (.refresh i) := by
  obtain ⟨d₀, d, hd, hreturned, m₁, hm₁, hnone, hleft⟩ := detached_of_unmount hl hret
  obtain ⟨x, hx⟩ : ∃ x, w.state.instances[i.index]? = some x := ⟨_, Array.getElem?_eq_getElem hi⟩
  -- the instance is silent from `l + d₀` on already, when the unmounted hooks have not run yet
  refine ⟨d, hreturned, fun n m hn hm hoff => ?_⟩
  have hfrom : l + d₀ ≤ n := by omega
  have hoff₁ : StaysOff b p c i (l + d₀) n := hoff.mono (Nat.le_add_right _ _) le_rfl
  have hnow := targetOf_of_staysOff hm₁ hnone hoff₁ hfrom hm
  refine ⟨⟨hnow, ?_⟩, ?_, ?_⟩
  · intro m' t y y' hnext hy hy' hwritten
    obtain ⟨j, z, html, hj, hz, heq⟩ := written_of_step hb hp hm hnext hy hy' hwritten
    refine ⟨j, z, html, ?_, hj, hz, heq⟩
    rintro rfl
    rw [hnow] at hj
    cases hj
  · intro t y ht hy halone
    have halone₁ : HasToItself b p c i t (l + d₀) n := fun hj => halone (by omega)
    exact target_of_staysOff hb hp hm₁ hnone hoff₁ halone₁ (hleft ht hy) hfrom hm
  · intro n₀ m₀ n₁ m' u hn₀ hm₀ hidle hle hle' hm' hop e
    obtain ⟨x₀, hx₀⟩ := instance_after hb hp hl hx (by omega) hm₀
    have hoff₀ : StaysOff b p c i (l + d₀) n₀ := hoff₁.mono le_rfl (hle.trans hle')
    have hnone₀ := targetOf_of_staysOff hm₁ hnone hoff₀ (by omega) hm₀
    exact effects_of_staysOff hb hp hm₀ hx₀ hnone₀ hidle (hoff₁.mono (by omega) le_rfl) hle hle'
      hm' hop hm e

end View

/-! ### A guest who leaves at once -/

namespace Guest

/-- As a hook, the code unmounts the instance. -/
def behaviour : Behaviour .single where
  invoke _ occasion :=
    match occasion with
    | .hook i => unmount i >>= fun _ => .done (.ok .undefined)
    | _ => .done (.ok .undefined)
  task t := nomatch t

/-- A card with a name, which unmounts itself as soon as it is mounted. -/
def card : Definition single.Body where
  name := "card"
  source := .routine ⟨[.text "<b ", .click "greet", .text ">", .echo (.name "who"), .text "</b>"]⟩
  mounted := [()]

/-- The card is put on the door, and then the name is changed. -/
def visit : View .single Unit :=
  .step (.newObject (.ofList [("who", .text "Ann")])) fun o =>
    construct card { data := some o } >>= keep >>= fun i =>
      newTarget "#door" >>= fun t => mountTarget i t >>= fun _ =>
        .step (.write (.set o "who" (.text "Bob"))) .done

lemma uses_behaviour : behaviour.Uses := by
  refine ⟨fun _ occasion => ?_, nofun⟩
  cases occasion with
  | hook i => exact .unmount i fun _ => .done _
  | _ => exact .done _

lemma uses_visit : visit.Uses :=
  .step trivial fun _ => .create card _ fun i => .newTarget "#door" fun t =>
    .mountTarget i t fun _ => .step trivial .done

def settled (m : Moment single.signature) : Bool :=
  decide (m.world.state.instances.size ≤ 1) && (m.next (semantics behaviour)).all fun m' =>
    m'.world.state.targetOf ⟨0⟩ == none ||
      m'.world.state.targetOf ⟨0⟩ == m.world.state.targetOf ⟨0⟩

lemma settled_after (hj : 37 ≤ j) (hj' : j ≤ 56)
    (hm : (semantics behaviour).after (opening visit ()) j = some m) : settled m = true := by
  have hcheck : ((semantics behaviour).after (opening visit ()) 37).all
      (fun m => (semantics behaviour).passes settled m 19) = true := by decide +kernel
  exact check_of_passes_from hcheck hj hj' hm

lemma staysOff : StaysOff behaviour visit () ⟨0⟩ 37 56 := by
  rintro j m m' hj hjn hm hm' ⟨hsome, hne⟩
  have hcheck := settled_after hj hjn.le hm
  rw [settled, next_of_after hm hm'] at hcheck
  have hor := (Bool.and_eq_true _ _ ▸ hcheck).2
  simp only [Option.all_some, Bool.or_eq_true, beq_iff_eq] at hor
  exact hor.elim hsome hne

lemma hasToItself : HasToItself behaviour visit () ⟨0⟩ ⟨0⟩ 37 56 := by
  intro j m hj hjn hm i' hi'
  have hcheck := settled_after hj hjn.le hm
  exact eq_zero_of_targetOf (of_decide_eq_true (Bool.and_eq_true _ _ ▸ hcheck).1) hi'

def begun (w : World single.signature) : Bool :=
  decide (0 < w.state.instances.size) && w.state.targetOf ⟨0⟩ == some ⟨0⟩ &&
    w.state.targets[0]?.any (fun y => y.content == "<b>Ann</b>" && y.handlers.length == 1) &&
    ((unmount ⟨0⟩).run ((semantics behaviour).caller 1) w).any fun r =>
      r.2.effectDepth ⟨0⟩ == 1

def aboutToLeave (m : Moment single.signature) : Bool :=
  match m.op? with
  | some (.within none (.invoke () (.hook ⟨0⟩))) => begun { m.world with active := none }
  | _ => false

lemma hook_begins : ∃ (k : Pending single.signature (Except ValueError Value))
      (w : World single.signature), (semantics behaviour).after (opening visit ()) 37 =
        some (.code (unmount ⟨0⟩ >>= fun _ => .done (.ok .undefined)) k w) ∧ begun w = true := by
  have hcheck : ((semantics behaviour).after (opening visit ()) 36).any aboutToLeave =
      true := by decide +kernel
  obtain ⟨m, hm, hat⟩ := (Option.any_eq_true _ _).mp hcheck
  rw [aboutToLeave] at hat
  split at hat
  · rename_i hop
    obtain ⟨_, _, k, hnext⟩ := Moment.next_of_op? (semantics behaviour) hop
    exact ⟨_, { m.world with active := none }, after_next hm hnext, hat⟩
  · cases hat

lemma idle_after (hj : 52 ≤ j) (hm : (semantics behaviour).after (opening visit ()) j = some m) :
    m.world.effectDepth ⟨0⟩ = 0 := by
  have hcheck : ((semantics behaviour).after (opening visit ()) 52).all
      (fun m => (semantics behaviour).passes (fun m => m.world.effectDepth ⟨0⟩ == 0) m 4) =
        true := by decide +kernel
  have hend : ((semantics behaviour).after (opening visit ()) 57).isNone = true := by
    decide +kernel
  have hlt := lt_of_after (Option.isNone_iff_eq_none.mp hend) hm
  exact beq_iff_eq.mp (check_of_passes_from hcheck hj (by omega) hm)

/-- The run is about to write, and there has been one effect. -/
def aboutToWrite (m : Moment single.signature) : Bool :=
  match m.op? with
  | some (.write _) => decide (m.world.effects.size = 1)
  | _ => false

/-- The card has left when its name is changed, and the door still shows the old one. -/
theorem unmounted_is_silent_guest :
    ∃ m, (View.semantics behaviour).after (View.opening visit ()) 56 = some m ∧
      m.world.state.targetOf ⟨0⟩ = none ∧
      (∃ y, m.world.state.targets[0]? = some y ∧ y.content = "<b>Ann</b>" ∧ y.handlers = []) ∧
      ∀ e, m.world.effectBody e ≠ some (.refresh ⟨0⟩) := by
  obtain ⟨k, w, hl, hbegun⟩ := hook_begins
  rw [begun] at hbegun
  simp only [Bool.and_eq_true, decide_eq_true_eq, beq_iff_eq, Option.any_eq_true] at hbegun
  obtain ⟨⟨⟨hsize, htarget⟩, y, hy, hcontent, -⟩, ⟨⟨⟩, w₁⟩, hret, hdepth⟩ := hbegun
  obtain ⟨d, hreturned, hsilent⟩ := unmounted_is_silent uses_behaviour uses_visit hl hsize hret
  have hd : 37 + d < 52 := by
    by_contra hge
    have hidle := idle_after (Nat.le_of_not_lt hge) hreturned
    exact Nat.one_ne_zero (hdepth.symm.trans hidle)
  have hwrite : ((semantics behaviour).after (opening visit ()) 52).any aboutToWrite =
      true := by decide +kernel
  have hlast : ((semantics behaviour).after (opening visit ()) 56).isSome = true := by
    decide +kernel
  obtain ⟨m, hm⟩ := Option.isSome_iff_exists.mp hlast
  obtain ⟨m₀, hm₀, hop⟩ := (Option.any_eq_true _ _).mp hwrite
  obtain ⟨⟨hnone, -⟩, hleft, heffects⟩ := hsilent 56 m (by omega) hm staysOff
  refine ⟨m, hm, hnone, ⟨_, hleft ⟨0⟩ y htarget hy hasToItself, hcontent, rfl⟩, ?_⟩
  rw [aboutToWrite] at hop
  split at hop
  · rename_i u hu
    refine heffects 52 m₀ 52 m₀ u hd.le hm₀ (fun e => ?_) le_rfl (by omega) hm₀ hu
    have hone : m₀.world.effects.size = 1 := of_decide_eq_true hop
    by_cases he : e = ⟨0⟩
    · exact he ▸ idle_after le_rfl hm₀
    · refine World.effectDepth_of_size_le ?_
      have hpos : e.index ≠ 0 := fun h => he (congrArg EffectId.mk h)
      omega
  · cases hop

end Guest

/-! ### Two tenants on one door -/

namespace Tenants

def plate : Definition single.Body where
  name := "plate"
  source := .routine ⟨[.text "<b ", .click "ring", .text ">", .echo (.name "who"), .text "</b>"]⟩

/-- Two plates are put on one door, each with a name of its own. -/
def moveIn : View .single Unit :=
  .step (.newObject (.ofList [("who", .text "Ann")])) fun o =>
    .step (.newObject (.ofList [("who", .text "Bob")])) fun o' =>
      construct plate { data := some o } >>= keep >>= fun i =>
        construct plate { data := some o' } >>= keep >>= fun i' =>
          newTarget "#door" >>= fun t =>
            mountTarget i t >>= fun _ => mountTarget i' t

/-- The first tenant leaves, and the second one changes its name. -/
def moveOut : View .single Unit :=
  unmount ⟨0⟩ >>= fun _ => .step (.write (.set ⟨1⟩ "who" (.text "Bert"))) .done

/-- A target that an instance was mounted on may have handlers while the instance is unmounted, if
another instance is mounted on it too. -/
theorem target_shared :
    ∃ w w' y, moveIn.run ((View.semantics Guest.behaviour).caller 2) { state := { client := () } } =
        some ((), w) ∧
      w.state.targetOf ⟨0⟩ = some ⟨0⟩ ∧
      moveOut.run ((semantics Guest.behaviour).caller 2) w = some ((), w') ∧
      w'.state.targetOf ⟨0⟩ = none ∧ w'.state.targets[0]? = some y ∧
      y.content = "<b>Bert</b>" ∧ y.bindings = [⟨.click, "ring", 0, false⟩] := by
  have hcheck : (moveIn.run ((semantics Guest.behaviour).caller 2)
      { state := { client := () } }).any (fun r => r.2.state.targetOf ⟨0⟩ == some ⟨0⟩ &&
        (moveOut.run ((semantics Guest.behaviour).caller 2) r.2).any fun r' =>
          r'.2.state.targetOf ⟨0⟩ == none && r'.2.state.targets[0]?.any fun y =>
            y.content == "<b>Bert</b>" && decide (y.bindings = [⟨.click, "ring", 0, false⟩])) =
        true := by decide +kernel
  simp only [Option.any_eq_true, Bool.and_eq_true, beq_iff_eq, decide_eq_true_eq] at hcheck
  obtain ⟨⟨⟨⟩, w⟩, hin, htarget, ⟨⟨⟩, w'⟩, hout, hnone, y, hy, hcontent, hbindings⟩ := hcheck
  exact ⟨w, w', y, hin, htarget, hout, hnone, hy, hcontent, hbindings⟩

end Tenants

end LiveMarkup
