import LiveMarkup.Proofs.Handlers
import LiveMarkup.Proofs.LastWord
import LiveMarkup.Proofs.Lifecycle

/-!
# Where instances are, and what they leave behind

An instance gets to a target by being mounted on it, and off it by being unmounted or by being
mounted on another one: `View.targetOf_step`. So it is mounted if it has not been unmounted since it
was mounted last, `View.isSome_targetOf_iff`.

Only unmounting detaches the handlers of the target, `View.handlersOf_step`. An instance that is
mounted on another target without being unmounted leaves them behind, and they stay until the target
is written to or somebody else is unmounted from it. `Lodger` is such a case.
-/

namespace LiveMarkup

open View Semantics ViewState

namespace View

section Events

variable (b : Behaviour C) (m0 : C.Moment)

/-- An instance is mounted on a target in the step after the `n`-th moment of a run. -/
def MountsOn (i : InstanceId) (t : TargetId) (n : Nat) : Prop :=
  ∃ w x, (semantics b).ComesTo m0 (mountTarget i t) n w ∧ w.state.instances[i.index]? = some x

/-- In the course of unmounting it, an instance is taken off its target in the step after the `n`-th
moment of a run. -/
def Leaves (i : InstanceId) (n : Nat) : Prop :=
  ∃ (β : Type) (f : Unit → View C β) (k : C.Pending β) (w : C.World)
    (x : C.Instance), Passed b m0 n k (unmount i >>= f) ∧
    (semantics b).after m0 n =
      some (.code (leave i (some x) >>= fun x => farewell i x >>= f) k w) ∧
    w.state.instances[i.index]? = some x

/-- In the course of unmounting an instance that was on it, a target loses its handlers in the step
after the `n`-th moment of a run. -/
def Vacates (t : TargetId) (n : Nat) : Prop :=
  ∃ (i : InstanceId) (x : C.Instance) (β : Type) (f : Unit → View C β)
    (k : C.Pending β) (w : C.World), Passed b m0 n k (unmount i >>= f) ∧
    x.target = some t ∧ (semantics b).after m0 n =
      some (.code (clearHandlers t >>= fun _ => farewell i (some x) >>= f) k w)

/-- The last one to write to a target before the `n`-th moment of a run was an instance: its
rendering returned at the `j`-th moment, in the world `w1`, and nothing has been written since. -/
def LastWriter (i : InstanceId) (t : TargetId) (j : Nat) (w1 : C.World) (n : Nat) :
    Prop :=
  ∃ l w m, Rendering b m0 i l j w w1 ∧ w1.state.targetOf i = some t ∧ j ≤ n ∧
    (semantics b).after m0 n = some m ∧ m.world.state.writesTo t = w1.state.writesTo t

end Events

variable {b : Behaviour C} {m : C.Moment} {n : Nat}

/-! ## What events do -/

lemma MountsOn.targetOf (h : MountsOn b m0 i t n) (hm : (semantics b).after m0 (n + 1) = some m) :
    m.world.state.targetOf i = some t := by
  obtain ⟨w, x, ⟨β, f, k, hn⟩, hx⟩ := h
  cases (after_next hn (next_mountTarget b i t)).symm.trans hm
  show (changed i (fun x => { x with target := some t }) w.state).targetOf i = some t
  rw [targetOf_changed_self, hx]
  rfl

lemma Leaves.targetOf (h : Leaves b m0 i n) (hm : (semantics b).after m0 (n + 1) = some m) :
    m.world.state.targetOf i = none := by
  obtain ⟨β, f, k, w, x, -, hn, hx⟩ := h
  cases (after_next hn (next_leave b i x)).symm.trans hm
  show (changed i (fun x => { x with target := none }) w.state).targetOf i = none
  rw [targetOf_changed_self, hx]
  rfl

lemma Leaves.vacates (h : Leaves b m0 i n) (hm : (semantics b).after m0 n = some m)
    (ht : m.world.state.targetOf i = some t) : Vacates b m0 t (n + 1) := by
  obtain ⟨β, f, k, w, x, hpassed, hn, hx⟩ := h
  cases hn.symm.trans hm
  have hxt : x.target = some t := by
    have ht : w.state.targetOf i = some t := ht
    rw [ViewState.targetOf, hx] at ht
    exact ht
  have hnext := next_leave b i x (f := f) (k := k) (w := w)
  rw [hxt] at hnext
  exact ⟨i, x, β, f, k, _, hpassed.mono n.le_succ, hxt, after_next hn hnext⟩

lemma handlersOf_vacated (t : TargetId) (s : ViewState C) : (vacated t s).handlersOf t = [] := by
  rw [handlersOf, vacated, Array.getElem?_modify, if_pos rfl]
  cases s.targets[t.index]? <;> rfl

lemma handlersOf_vacated_of_ne (h : t ≠ t') (s : ViewState C) :
    (vacated t' s).handlersOf t = s.handlersOf t := by
  have hindex : t'.index ≠ t.index := fun heq => h (congrArg TargetId.mk heq.symm)
  rw [handlersOf, vacated, Array.getElem?_modify, if_neg hindex]
  rfl

lemma Vacates.handlersOf (h : Vacates b m0 t n) (hm : (semantics b).after m0 (n + 1) = some m) :
    m.world.state.handlersOf t = [] := by
  obtain ⟨i, x, β, f, k, w, -, -, hn⟩ := h
  cases (after_next hn rfl).symm.trans hm
  exact handlersOf_vacated t w.state

/-! ## What a step can do -/

section

variable (h : Advance b m0 n m m' o o') (hm : (semantics b).after m0 n = some m)
include h hm

lemma Advance.targetOf_cases (i : InstanceId) :
    m'.world.state.targetOf i = m.world.state.targetOf i ∨ (∃ t, MountsOn b m0 i t n) ∨
      Leaves b m0 i n := by
  cases h with
  | calm hcalm => exact .inl (hcalm.targetOf i)
  | @mounts j t _ f k w _ hat hstate =>
    subst hat
    by_cases hi : i = j
    · subst hi
      cases hx : w.state.instances[i.index]? with
      | some x => exact .inr (.inl ⟨t, w, x, ⟨_, f, k, hm⟩, hx⟩)
      | none =>
        rw [hstate, targetOf_changed_self]
        refine .inl ?_
        show _ = w.state.targetOf i
        rw [targetOf, hx]
        rfl
    · rw [hstate]
      exact .inl (targetOf_changed_of_ne _ _ _ hi)
  | @leaves _ k j f x w _ hpassed hat hx hstate =>
    subst hat
    by_cases hi : i = j
    · subst hi
      exact .inr (.inr ⟨_, f, k, w, x, hpassed, hm, hx⟩)
    · rw [hstate]
      exact .inl (targetOf_changed_of_ne _ _ _ hi)
  | vacates _ _ hat hstate =>
    subst hat
    rw [hstate]
    exact .inl rfl
  | @rouses φ j x _ _ _ _ hstate =>
    refine .inl ?_
    rw [hstate]
    by_cases hi : i = j
    · subst hi
      rw [targetOf_changed_self, targetOf]
      simp only [Phase.target_mark]
    · exact targetOf_changed_of_ne _ _ _ hi
  | hook _ _ hstate =>
    rw [hstate]
    exact .inl rfl

lemma Advance.handlersOf_cases (hwrites : m'.world.state.writesTo t = m.world.state.writesTo t) :
    m'.world.state.handlersOf t = m.world.state.handlersOf t ∨ Vacates b m0 t n := by
  cases h with
  | calm hcalm => exact .inl (hcalm.handlersOf t hwrites)
  | mounts hat hstate | leaves _ hat _ hstate =>
    subst hat
    rw [hstate]
    exact .inl rfl
  | @vacates _ k j f t' x w _ hpassed ht hat hstate =>
    subst hat
    by_cases heq : t = t'
    · subst heq
      exact .inr ⟨j, x, _, f, k, w, hpassed, ht, hm⟩
    · rw [hstate]
      exact .inl (handlersOf_vacated_of_ne heq _)
  | rouses _ _ _ hstate | hook _ _ hstate =>
    rw [hstate]
    exact .inl rfl

end

/-! ## Runs -/

variable {p : View C α}

section

variable (hb : b.Abides) (hp : p.Abides) (hm : RunsTo b p c n m)
include hb hp hm

lemma targetOf_step (hm' : RunsTo b p c (n + 1) m') (i : InstanceId) :
    m'.world.state.targetOf i = m.world.state.targetOf i ∨
      (∃ t, MountsOn b (opening p c) i t n) ∨ Leaves b (opening p c) i n := by
  obtain ⟨o, o', hadvance⟩ := exists_advance hb hp hm hm'
  exact hadvance.targetOf_cases hm i

lemma handlersOf_step (hm' : RunsTo b p c (n + 1) m')
    (hwrites : m'.world.state.writesTo t = m.world.state.writesTo t) :
    m'.world.state.handlersOf t = m.world.state.handlersOf t ∨ Vacates b (opening p c) t n := by
  obtain ⟨o, o', hadvance⟩ := exists_advance hb hp hm hm'
  exact hadvance.handlersOf_cases hm hwrites

/-- An instance is mounted if it has not been unmounted since it was mounted last. -/
lemma isSome_targetOf_iff :
    (m.world.state.targetOf i).isSome ↔ ∃ l t, l < n ∧ MountsOn b (opening p c) i t l ∧
      ∀ j, l < j → j < n → ¬ Leaves b (opening p c) i j := by
  constructor
  · intro hsome
    induction n generalizing m with
    | zero =>
      cases hm
      simp [opening, Moment.world, targetOf] at hsome
    | succ n ih =>
      obtain ⟨m1, hm1, -⟩ := after_succ_cases hm
      by_cases hleaves : Leaves b (opening p c) i n
      · rw [hleaves.targetOf hm] at hsome
        cases hsome
      · rcases targetOf_step hb hp hm1 hm i with hsame | ⟨t, hmounts⟩ | h
        · obtain ⟨l, t, hl, hmounts, hno⟩ := ih hm1 (hsame ▸ hsome)
          refine ⟨l, t, Nat.lt_succ_of_lt hl, hmounts, fun j hlj hjn => ?_⟩
          rcases Nat.lt_succ_iff_lt_or_eq.mp hjn with hlt | rfl
          · exact hno j hlj hlt
          · exact hleaves
        · exact ⟨n, t, n.lt_succ_self, hmounts, fun j hlj hjn => by omega⟩
        · exact absurd h hleaves
  · rintro ⟨l, t, hl, hmounts, hno⟩
    obtain ⟨m1, hm1⟩ := exists_after hm (Nat.succ_le_of_lt hl)
    refine after_stretch (P := fun m : C.Moment =>
      (m.world.state.targetOf i).isSome) hm1 ?_ ?_ hl hm
    · rw [hmounts.targetOf hm1]
      rfl
    · intro j m2 m3 hlj hjn hm2 hm3 hsome
      rcases targetOf_step hb hp hm2 hm3 i with hsame | ⟨t', hmounts'⟩ | h
      · rw [hsame]
        exact hsome
      · rw [hmounts'.targetOf hm3]
        rfl
      · exact absurd h (hno j hlj hjn)

end

/-! ## Handlers that are left behind -/

lemma writesTo_le (hb : b.Abides) (hp : p.Abides) (hm : RunsTo b p c l m) (hl : l ≤ n)
    (hm' : RunsTo b p c n m') (t : TargetId) :
    m.world.state.writesTo t ≤ m'.world.state.writesTo t := by
  refine after_stretch (P := fun m1 : C.Moment =>
    m.world.state.writesTo t ≤ m1.world.state.writesTo t) hm le_rfl ?_ hl hm'
  intro j m1 m2 _ _ hm1 hm2 hle
  refine hle.trans ?_
  have htreats := (moves_after hb.uses hp.uses hm1 (step_of_after hm1 hm2)).targets t
  rw [writesTo, writesTo]
  generalize m1.world.state.targets[t.index]? = y1, m2.world.state.targets[t.index]? = y2 at htreats
  cases htreats with
  | leaves | creates | detaches => exact le_rfl
  | writes _ _ _ y => exact Nat.le_succ y.writes

section Stretch

section

variable (hb : b.Abides) (hp : p.Abides) (hm : RunsTo b p c l m)
include hb hp hm

lemma writesTo_eq_of_stretch (hm' : RunsTo b p c n m')
    (hwrites : m'.world.state.writesTo t = m.world.state.writesTo t) (hl : l ≤ j) (hn : j < n)
    (hm1 : RunsTo b p c j m1) (hm2 : RunsTo b p c (j + 1) m2) :
    m2.world.state.writesTo t = m1.world.state.writesTo t := by
  have h1 := writesTo_le hb hp hm hl hm1 t
  have h2 := writesTo_le hb hp hm1 j.le_succ hm2 t
  have h3 := writesTo_le hb hp hm2 (Nat.succ_le_of_lt hn) hm' t
  omega

lemma handlersOf_kept (hl : l ≤ n) (hm' : RunsTo b p c n m')
    (hwrites : m'.world.state.writesTo t = m.world.state.writesTo t)
    (hno : ∀ q, l ≤ q → q < n → ¬ Vacates b (opening p c) t q) :
    m'.world.state.handlersOf t = m.world.state.handlersOf t := by
  refine after_stretch (P := fun m1 : C.Moment =>
    m1.world.state.handlersOf t = m.world.state.handlersOf t) hm rfl ?_ hl hm'
  intro j m1 m2 hlj hjn hm1 hm2 hsame
  have hstep := writesTo_eq_of_stretch hb hp hm hm' hwrites hlj hjn hm1 hm2
  rcases handlersOf_step hb hp hm1 hm2 hstep with hkept | hvacates
  · exact hkept.trans hsame
  · exact absurd hvacates (hno j hlj hjn)

lemma handlersOf_lost (hm' : RunsTo b p c n m')
    (hwrites : m'.world.state.writesTo t = m.world.state.writesTo t) (hl : l ≤ q) (hn : q < n)
    (hq : Vacates b (opening p c) t q) : m'.world.state.handlersOf t = [] := by
  obtain ⟨mq, hmq⟩ := exists_after hm' (Nat.succ_le_of_lt hn)
  refine after_stretch (P := fun m1 : C.Moment =>
    m1.world.state.handlersOf t = []) hmq (hq.handlersOf hmq) ?_ hn hm'
  intro j m1 m2 hqj hjn hm1 hm2 hnone
  have hstep := writesTo_eq_of_stretch hb hp hm hm' hwrites (by omega) hjn hm1 hm2
  rcases handlersOf_step hb hp hm1 hm2 hstep with hkept | hvacates
  · exact hkept.trans hnone
  · exact hvacates.handlersOf hm2

end

lemma exists_departure (hm : (semantics b).after m0 l = some m)
    (ht : m.world.state.targetOf i = some t) (hl : l ≤ n)
    (hm' : (semantics b).after m0 n = some m') (hne : m'.world.state.targetOf i ≠ some t) :
    ∃ q m1 m2, l ≤ q ∧ q < n ∧ (semantics b).after m0 q = some m1 ∧
      (semantics b).after m0 (q + 1) = some m2 ∧ m1.world.state.targetOf i = some t ∧
      m2.world.state.targetOf i ≠ some t := by
  by_contra hstays
  refine hne (after_stretch (P := fun m1 : C.Moment =>
    m1.world.state.targetOf i = some t) hm ht ?_ hl hm')
  intro q m1 m2 hlq hqn hm1 hm2 h1
  by_contra h2
  exact hstays ⟨q, m1, m2, hlq, hqn, hm1, hm2, h1, h2⟩

end Stretch

lemma handlersOf_eq (t : TargetId) (s : ViewState C) :
    s.handlersOf t = (s.targets[t.index]?.getD {}).handlers := by
  rw [handlersOf]
  cases s.targets[t.index]? <;> rfl

lemma target_of_unwritten (hb : b.Uses) (hp : p.Uses) (hm : RunsTo b p c n m)
    (hw : m.world.state.writesTo t = 0) : m.world.state.targets[t.index]?.getD {} = {} := by
  induction n generalizing m with
  | zero =>
    cases hm
    rfl
  | succ n ih =>
    obtain ⟨m1, hm1, hstep⟩ := after_succ_cases hm
    have htreats := (moves_after hb hp hm1 hstep).targets t
    have hnew := ih hm1
    rw [writesTo] at hw hnew
    generalize m1.world.state.targets[t.index]? = y1, m.world.state.targets[t.index]? = y2
      at htreats hnew hw
    cases htreats with
    | leaves => exact hnew hw
    | creates => rfl
    | detaches y =>
      have hy : y = {} := hnew hw
      rw [hy]
      rfl
    | writes _ _ _ y => exact absurd hw (Nat.succ_ne_zero y.writes)

lemma handlersOf_rendered (h : Rendering b m0 i l j w w1) (ht : w1.state.targetOf i = some t) :
    ∃ data, ∀ h ∈ w1.state.handlersOf t, h.2 = handlerOf i data h.1 := by
  obtain ⟨β, f, k, rendered, bound, -, hrun, -⟩ := h
  cases hy : w1.state.targets[t.index]? with
  | none => exact ⟨⟨0⟩, by simp [handlersOf, hy]⟩
  | some y =>
    obtain ⟨x, -, hshows⟩ := shows_of_returned hrun ht hy
    exact ⟨x.data, by simp [handlersOf, hy, hshows.handlers]⟩

lemma persists_of_le (hb : b.Uses) (hp : p.Uses) (hm : RunsTo b p c l m) (hl : l ≤ n)
    (hm' : RunsTo b p c n m') : m.world.state.Persists m'.world.state := by
  refine after_stretch (P := fun m1 : C.Moment => m.world.state.Persists m1.world.state) hm
    (.refl _) ?_ hl hm'
  intro j m1 m2 _ _ hm1 hm2 h
  exact h.trans (moves_after hb hp hm1 (step_of_after hm1 hm2)).persists

/-- At every moment of every run of an application that keeps to the interface of the view layer, a
target that one instance uses is as new, or its content is that of one of the renderings of the
instance that are over. If the instance has been unmounted from it since that rendering, it has no
handlers. Otherwise the content and the bindings are the two halves of the same markup, with the
bindings in document order, and the interaction of a kind with a number reaches the marker of that
kind at that position, and is reported missing and changes nothing if there are not as many. So is
every interaction with a target that has no handlers. -/
theorem content_and_handlers_match (hb : b.Abides) (hp : p.Abides) {x : Target}
    (hsingle : ∀ l ≤ n, ∀ m', (semantics b).after (opening p c) l = some m' →
      ∀ j, m'.world.state.targetOf j = some t → j = i)
    (hm : (semantics b).after (opening p c) n = some m)
    (hx : m.world.state.targets[t.index]? = some x) :
    (x = {} ∨
      ∃ l j w w₁ bound rendered, l < j ∧ j ≤ n ∧ Rendering b (opening p c) i l j w w₁ ∧
        (renderTop i).run ((semantics b).caller bound) w = some (rendered, w₁) ∧
        x.content = (Binding.extract rendered.html).markup ∧
        ((∃ q, j ≤ q ∧ q < n ∧ Vacates b (opening p c) t q) ∧ x.handlers = [] ∨
          (∀ q, j ≤ q → q < n → ¬ Vacates b (opening p c) t q) ∧
            x.bindings = (Binding.extract rendered.html).bindings ∧
            x.bindings.map Binding.toMarker = Binding.markers rendered.html ∧
            ∃ y, m.world.state.instances[i.index]? = some y ∧
              ∀ call kind k input, (dispatch t kind k input).run call m.world =
                match ((Binding.markers rendered.html).filter fun a => a.kind == kind)[k]? with
                | some a =>
                  ((handle (a.handler i y.data) input).run call m.world).map fun r => (.ok (), r.2)
                | none => some (.error (.bindingNotFound kind k), m.world))) ∧
    (x.handlers = [] → ∀ call kind k input, (dispatch t kind k input).run call m.world =
      some (.error (.bindingNotFound kind k), m.world)) := by
  refine ⟨?_, fun hnone call kind k input => run_dispatch_of_detached hx hnone kind k input⟩
  have hcount : m.world.state.writesTo t = x.writes := ViewState.writesTo_of_target hx
  by_cases hwritten : x.writes = 0
  · have hnew := target_of_unwritten hb.uses hp.uses hm (hcount.trans hwritten)
    rw [hx] at hnew
    exact .inl hnew
  · obtain ⟨i', l, j, w, w₁, hl, hj, hrendering, ht, hwrites⟩ :=
      rendering_of_written hb.uses hp.uses hm (hcount ▸ hwritten)
    obtain ⟨β, f, k, rendered, bound, hbegins, hrun, hreturns⟩ := id hrendering
    obtain rfl : i' = i := hsingle j hj _ hreturns i' ht
    obtain ⟨y, hy, hsame⟩ := ViewState.target_of_writesTo (hwrites ▸ hcount ▸ hwritten)
    have hcontent : x.content = y.content :=
      content_of_writes hb.uses hp.uses hreturns hy hj hm hx (by omega)
    obtain ⟨z, hz, hshows⟩ := shows_of_returned hrun ht hy
    refine .inr ⟨l, j, w, w₁, bound, rendered, hl, hj, hrendering, hrun,
      hcontent.trans hshows.content, ?_⟩
    have hhandlers : m.world.state.handlersOf t = x.handlers := by rw [handlersOf_eq, hx]; rfl
    by_cases hvacated : ∃ q, j ≤ q ∧ q < n ∧ Vacates b (opening p c) t q
    · obtain ⟨q, hjq, hqn, hq⟩ := id hvacated
      exact .inl ⟨hvacated, hhandlers.symm.trans
        (handlersOf_lost hb hp hreturns hm hwrites.symm hjq hqn hq)⟩
    · have hno : ∀ q, j ≤ q → q < n → ¬ Vacates b (opening p c) t q :=
        fun q hjq hqn hq => hvacated ⟨q, hjq, hqn, hq⟩
      have hkept : x.handlers = y.handlers := by
        rw [← hhandlers, handlersOf_kept hb hp hreturns hj hm hwrites.symm hno]
        exact congrArg (Option.elim · [] Target.handlers) hy
      obtain ⟨z', hz', hdata⟩ := persists_of_le hb.uses hp.uses hbegins (hl.le.trans hj) hm _ z hz
      have hnow : x.Shows i' z'.data rendered.html := by
        rw [hdata]
        exact ⟨hcontent.trans hshows.content, hkept.trans hshows.handlers⟩
      refine .inr ⟨hno, hnow.bindings, ?_, z', hz', fun call kind k input => ?_⟩
      · rw [hnow.bindings, Binding.markers_extract]
      · exact run_dispatch_of_shows hx hnow kind k input

/-- At every moment of every run, a target that has handlers was last written to by an instance. And
whenever an instance was the last one to write to a target, it attached handlers of its own, and:

* if somebody has been unmounted from the target since, it has no handlers;
* if nobody has, it has the handlers of the instance, all of them. Then the instance is still on the
  target, or it is just being unmounted from it, or it has left it by being mounted on another one.
-/
theorem handlers_left_by_moving (hb : b.Abides) (hp : p.Abides)
    (hm : (semantics b).after (opening p c) n = some m) (t : TargetId) :
    (m.world.state.handlersOf t ≠ [] → ∃ i j w₁, LastWriter b (opening p c) i t j w₁ n) ∧
    ∀ i j w₁, LastWriter b (opening p c) i t j w₁ n →
      (∃ data, ∀ h ∈ w₁.state.handlersOf t, h.2 = handlerOf i data h.1) ∧
      ((∃ q, j ≤ q ∧ q < n ∧ Vacates b (opening p c) t q) ∧ m.world.state.handlersOf t = [] ∨
        (∀ q, j ≤ q → q < n → ¬ Vacates b (opening p c) t q) ∧
          m.world.state.handlersOf t = w₁.state.handlersOf t ∧
          (m.world.state.targetOf i = some t ∨ Vacates b (opening p c) t n ∨
            ∃ q t' m', j ≤ q ∧ q < n ∧ (semantics b).after (opening p c) q = some m' ∧
              m'.world.state.targetOf i = some t ∧ MountsOn b (opening p c) i t' q ∧ t' ≠ t)) := by
  constructor
  · intro hsome
    have hwritten : m.world.state.writesTo t ≠ 0 := fun hw =>
      hsome (by rw [handlersOf_eq, target_of_unwritten hb.uses hp.uses hm hw])
    obtain ⟨i, l, j, w, w₁, -, hj, hrendering, ht, hwrites⟩ :=
      rendering_of_written hb.uses hp.uses hm hwritten
    exact ⟨i, j, w₁, l, w, m, hrendering, ht, hj, hm, hwrites.symm⟩
  · rintro i j w₁ ⟨l, w, m', hrendering, ht, hj, hm', hwrites⟩
    cases hm.symm.trans hm'
    refine ⟨handlersOf_rendered hrendering ht, ?_⟩
    obtain ⟨β, f, k, rendered, bound, -, -, hreturns⟩ := hrendering
    by_cases hvacated : ∃ q, j ≤ q ∧ q < n ∧ Vacates b (opening p c) t q
    · obtain ⟨q, hjq, hqn, hq⟩ := hvacated
      exact .inl ⟨⟨q, hjq, hqn, hq⟩, handlersOf_lost hb hp hreturns hm hwrites hjq hqn hq⟩
    · have hno : ∀ q, j ≤ q → q < n → ¬ Vacates b (opening p c) t q := fun q hjq hqn hq =>
        hvacated ⟨q, hjq, hqn, hq⟩
      refine .inr ⟨hno, handlersOf_kept hb hp hreturns hj hm hwrites hno, ?_⟩
      by_cases hon : m.world.state.targetOf i = some t
      · exact .inl hon
      · obtain ⟨q, m₁, m₂, hjq, hqn, hm₁, hm₂, hbefore, hafter⟩ :=
          exists_departure hreturns ht hj hm hon
        rcases targetOf_step hb hp hm₁ hm₂ i with hsame | ⟨t', hmounts⟩ | hleaves
        · exact absurd (hsame.trans hbefore) hafter
        · refine .inr (.inr ⟨q, t', m₁, hjq, hqn, hm₁, hbefore, hmounts, ?_⟩)
          rintro rfl
          exact hafter (hmounts.targetOf hm₂)
        · -- the step after it has been taken off is the one in which the target loses its handlers
          have hvacates := hleaves.vacates hm₁ hbefore
          rcases Nat.lt_or_eq_of_le (Nat.succ_le_of_lt hqn) with hlt | heq
          · exact absurd hvacates (hno (q + 1) (by omega) hlt)
          · exact .inr (.inl (heq ▸ hvacates))

end View

/-! ### A lodger who moves -/

namespace Lodger

def behaviour : Behaviour .single where
  invoke _ _ := .done (.ok .undefined)
  task t := nomatch t

def plate : Definition Client.single.Body where
  name := "plate"
  source := .routine ⟨[.text "<b ", .click "ring", .text ">Ann</b>"]⟩
  methods := .ofList [("ring", ())]

/-- The plate is put on one door, and then on another one. -/
def move : View .single Unit :=
  construct plate {} >>= keep >>= fun i =>
    newTarget "#first" >>= fun t => newTarget "#second" >>= fun t' =>
      mountTarget i t >>= fun _ => mountTarget i t' >>= .done

def leave : View .single Unit :=
  unmount ⟨0⟩

lemma abides_behaviour : behaviour.Abides := ⟨fun _ _ => .done _, nofun⟩

lemma abides_move : move.Abides :=
  .create plate {} fun i => .newTarget "#first" fun t => .newTarget "#second" fun t' =>
    .mountTarget i t fun _ => .mountTarget i t' fun _ => .done ()

/-- The bell on the first door is left when the plate is on the second one, and also when it has
been removed from there. -/
theorem handlers_left_behind :
    ∃ w w' y y' z', move.run ((View.semantics behaviour).caller 2) { state := { client := () } } =
        some ((), w) ∧
      w.state.targetOf ⟨0⟩ = some ⟨1⟩ ∧ w.state.targets[0]? = some y ∧
      y.bindings = [⟨.click, "ring", 0, false⟩] ∧
      leave.run ((semantics behaviour).caller 2) w = some ((), w') ∧
      w'.state.targetOf ⟨0⟩ = none ∧ w'.state.targets[0]? = some y' ∧
      y'.bindings = [⟨.click, "ring", 0, false⟩] ∧ w'.state.targets[1]? = some z' ∧
      z'.bindings = [] := by
  have hcheck : (move.run ((semantics behaviour).caller 2)
      { state := { client := () } }).any (fun r => r.2.state.targetOf ⟨0⟩ == some ⟨1⟩ &&
        r.2.state.targets[0]?.any (fun y => decide (y.bindings = [⟨.click, "ring", 0, false⟩])) &&
        (leave.run ((semantics behaviour).caller 2) r.2).any fun r' =>
          r'.2.state.targetOf ⟨0⟩ == none &&
          r'.2.state.targets[0]?.any (fun y => decide (y.bindings = [⟨.click, "ring", 0, false⟩])) &&
          r'.2.state.targets[1]?.any fun y => decide (y.bindings = [])) = true := by decide +kernel
  simp only [Option.any_eq_true, Bool.and_eq_true, beq_iff_eq, decide_eq_true_eq] at hcheck
  obtain ⟨⟨⟨⟩, w⟩, hmove, ⟨hthere, y, hy, hbell⟩, ⟨⟨⟩, w'⟩, hleave, ⟨hgone, y', hy', hbell'⟩, z',
    hz', hnone⟩ := hcheck
  exact ⟨w, w', y, y', z', hmove, hthere, hy, hbell, hleave, hgone, hy', hbell', hz', hnone⟩

/-- When the plate is on the second door, the first one has the handlers that the plate left when it
was mounted on another door. -/
theorem handlers_left_by_moving_lodger :
    ∃ m q t' m', (View.semantics behaviour).after (View.opening move ()) 63 = some m ∧
      m.world.state.handlersOf ⟨0⟩ ≠ [] ∧ m.world.state.targetOf ⟨0⟩ = some ⟨1⟩ ∧ q < 63 ∧
      (View.semantics behaviour).after (View.opening move ()) q = some m' ∧
      m'.world.state.targetOf ⟨0⟩ = some ⟨0⟩ ∧
      View.MountsOn behaviour (View.opening move ()) ⟨0⟩ t' q ∧ t' ≠ ⟨0⟩ := by
  have hcheck : ((semantics behaviour).after (opening move ()) 63).any (fun m =>
      !(m.world.state.handlersOf ⟨0⟩).isEmpty && m.world.state.targetOf ⟨0⟩ == some ⟨1⟩ &&
        m.op?.isNone) = true := by decide +kernel
  simp only [Option.any_eq_true, Bool.and_eq_true, beq_iff_eq, Bool.not_eq_true'] at hcheck
  obtain ⟨m, hm, ⟨hhandlers, hthere⟩, hover⟩ := hcheck
  have hsome : m.world.state.handlersOf ⟨0⟩ ≠ [] := by
    intro hnone
    rw [hnone] at hhandlers
    cases hhandlers
  obtain ⟨hwriter, hleft⟩ := handlers_left_by_moving abides_behaviour abides_move hm ⟨0⟩
  obtain ⟨i, j, w₁, hlast⟩ := hwriter hsome
  obtain ⟨-, ⟨-, hnone⟩ | ⟨-, -, hcases⟩⟩ := hleft i j w₁ hlast
  · exact absurd hnone hsome
  · obtain ⟨l, w, m₁, ⟨β, f, k, rendered, bound, -, -, hreturns⟩, ht, hj, -⟩ := hlast
    obtain rfl : i = ⟨0⟩ := eq_zero_of_passes (by decide +kernel) hj hreturns ht
    rcases hcases with hon | ⟨i, x, β, f, k, w, -, -, hvacates⟩ | ⟨q, t', m', -, hq, hm', hbefore,
      hmounts, hne⟩
    · cases hthere.symm.trans hon
    · cases hm.symm.trans hvacates
      cases hover
    · exact ⟨m, q, t', m', hm, hsome, hthere, hq, hm', hbefore, hmounts, hne⟩

/-- When the plate is on the second door, its one button is the first click there, and there is no
second. -/
theorem content_and_handlers_match_lodger :
    ∃ m x w w₁ bound rendered,
      (View.semantics behaviour).after (View.opening move ()) 63 = some m ∧
      m.world.state.targets[1]? = some x ∧
      (View.renderTop ⟨0⟩).run ((View.semantics behaviour).caller bound) w = some (rendered, w₁) ∧
      x.content = (Binding.extract rendered.html).markup ∧
      x.bindings = (Binding.extract rendered.html).bindings ∧
      x.bindings = [⟨.click, "ring", 0, false⟩] ∧
      ∀ call input, (View.dispatch ⟨1⟩ .click 1 input).run call m.world =
        some (.error (.bindingNotFound .click 1), m.world) := by
  have hcheck : ((semantics behaviour).after (opening move ()) 63).any (fun m =>
      m.world.state.targets[1]?.any fun x =>
        decide (x.bindings = [⟨.click, "ring", 0, false⟩])) = true := by decide +kernel
  simp only [Option.any_eq_true, decide_eq_true_eq] at hcheck
  obtain ⟨m, hm, x, hx, hbindings⟩ := hcheck
  have hsome : x.handlers ≠ [] := by
    intro hnone
    rw [Target.bindings, hnone] at hbindings
    cases hbindings
  obtain ⟨hnew | ⟨-, j, w, w₁, bound, rendered, -, -, -, hrun, hcontent, hcases⟩, -⟩ :=
    content_and_handlers_match abides_behaviour abides_move (t := ⟨1⟩)
      (fun l hl m' hm' j => eq_zero_of_passes (by decide +kernel) hl hm') hm hx
  · exact absurd (congrArg Target.handlers hnew) hsome
  · obtain ⟨-, hnone⟩ | ⟨-, hhalves, hmarkers, _, -, hdispatch⟩ := hcases
    · exact absurd hnone hsome
    · refine ⟨m, x, w, w₁, bound, rendered, hm, hx, hrun, hcontent, hhalves, hbindings, ?_⟩
      intro call input
      rw [hdispatch, ← hmarkers, hbindings]
      rfl

end Lodger

end LiveMarkup
