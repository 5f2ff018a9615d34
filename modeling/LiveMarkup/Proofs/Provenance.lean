import LiveMarkup.Proofs.Housekeeping

/-!
# Where the content of a target comes from

Content reaches a target at the end of a rendering, and in no other way. So whatever a target shows,
there is a rendering that began at some moment, ran to its end, with other renderings inside it
perhaps, and wrote it: `View.rendering_of_written`.

To find the beginning of the rendering, a run is taken apart from the outside. Whatever runs while
something waits for its result runs as if nothing did, `Moment.Onto`, so a step of it is a step of a
shorter run on its own, or comes after that one is over. By induction on the length of runs every
write is then accounted for, `View.accounts`: it is inside one of these shorter runs, or it is the
last step of a rendering whose beginning is the beginning of the run.
-/

namespace LiveMarkup

open View Semantics ViewState Moment

/-! ## Runs in a context -/

section Context

variable {K : Pending S α}

/-- What waits in a run on its own, and what waits in a run on whose result `K` waits. -/
inductive Pending.Under (K : Pending S α) : {β : Type} → Pending S β → Pending S β → Prop
  | bottom : Under K .nothing K
  | goOn (h : Under K k k') : Under K (.goOn f k) (.goOn f k')
  | restore (h : Under K k k') : Under K (.restore before k) (.restore before k')
  | leave (h : Under K k k') :
      Under K (.leave e before es slots k : Pending S β) (.leave e before es slots k')
  | born (h : Under K k k') : Under K (.born e f k) (.born e f k')

lemma Pending.Under.unique (h1 : K.Under k k1) (h2 : K.Under k k2) : k1 = k2 := by
  induction h1 with
  | bottom =>
    cases h2
    rfl
  | goOn _ ih | restore _ ih | leave _ ih | born _ ih =>
    cases h2
    rename_i h
    rw [ih h]

/-- A moment of a run on its own, and the same moment of a run on whose result `K` waits. -/
inductive Moment.Onto (K : Pending S α) : Moment S → Moment S → Prop
  | code (p : Program S β) (h : K.Under k k') (w : World S) : Onto K (.code p k w) (.code p k' w)
  | turns (es : List EffectId) (slots : List Slot) (h : K.Under k k') (w : World S) :
      Onto K (.turns es slots k w) (.turns es slots k' w)

namespace Moment.Onto

variable {m : Moment S}

lemma world (h : m.Onto K m') : m'.world = m.world := by
  cases h <;> rfl

lemma start (sem : Semantics S) {op : Op S} {next : op.Reply → Program S β} (h : K.Under k k')
    (w : World S) : Option.Rel (Onto K) (op.start sem next k w) (op.start sem next k' w) := by
  have inert : op.IsInert →
      Option.Rel (Onto K) (op.start sem next k w) (op.start sem next k' w) := by
    intro hop
    rw [Op.start_of_inert hop, Op.start_of_inert hop]
    cases op.perform (fun _ _ => none) w with
    | none => exact .none
    | some r => exact .some (.code _ h _)
  cases op with
  | write u | rerun e | trigger s => exact .some (.turns _ _ (.goOn h) _)
  | call c => exact .some (.code _ (.goOn h) _)
  | within e c => exact .some (.code _ (.restore (.goOn h)) _)
  | spawn c => exact .some (.turns _ _ (.born h) _)
  | _ => exact inert trivial

/-- The two runs go on in the same way, unless the one on its own is over and `K` takes its turn in
the other. -/
lemma next (h : m.Onto K m') (sem : Semantics S) :
    (∃ a w, m = .code (.done a) .nothing w ∧ m' = .code (.done a) K w) ∨
      Option.Rel (Onto K) (m.next sem) (m'.next sem) := by
  cases h with
  | code p h w =>
    cases p with
    | done a =>
      cases h with
      -- only here the two differ: the one run is over, and the other goes on with `K`
      | bottom => exact .inl ⟨a, w, rfl, rfl⟩
      | goOn h => exact .inr (.some (.code _ h _))
      | restore h => exact .inr (.some (.code _ h _))
      | leave h => exact .inr (.some (.turns _ _ h _))
      | born h => exact .inr (.some (.code _ h _))
    | step op next => exact .inr (start sem h w)
  | turns es slots h w =>
    refine .inr ?_
    cases es with
    | nil =>
      cases slots with
      | nil => exact .some (.code _ h _)
      | cons s slots => exact .some (.turns _ _ h _)
    | cons e es =>
      simp only [next]
      cases w.effectBody e with
      | none => exact .some (.turns _ _ h _)
      | some c =>
        simp only
        split
        · exact .some (.turns _ _ h _)
        · exact .some (.code _ (.leave h) _)

/-- Up to the moment at which the run on its own is over, the two runs have the same moments. -/
lemma after (h : m.Onto K m') (sem : Semantics S) (n : Nat) :
    (∃ d a w, d < n ∧ sem.after m d = some (.code (.done a) .nothing w) ∧
      sem.after m' d = some (.code (.done a) K w)) ∨
      Option.Rel (Onto K) (sem.after m n) (sem.after m' n) := by
  induction n with
  | zero => exact .inr (.some h)
  | succ n ih =>
    rcases ih with ⟨d, a, w, hd, hover, hover'⟩ | hrel
    · exact .inl ⟨d, a, w, Nat.lt_succ_of_lt hd, hover, hover'⟩
    · rw [after_succ, after_succ]
      generalize hm : sem.after m n = o at hrel
      generalize hm' : sem.after m' n = o' at hrel
      cases hrel with
      | none => exact .inr .none
      | some h =>
        rcases h.next sem with ⟨a, w, rfl, rfl⟩ | hrel
        · exact .inl ⟨n, a, w, Nat.lt_succ_self n, hm, hm'⟩
        · exact .inr hrel

variable {sem : Semantics S}

lemma after_some (h : m.Onto K m') (h1 : sem.after m n = some m1) :
    ∃ m1', sem.after m' n = some m1' ∧ m1.Onto K m1' := by
  rcases h.after sem n with ⟨d, a, w, hd, hover, -⟩ | hrel
  · have hend : sem.after m (d + 1) = none := by
      rw [after_succ, hover]
      rfl
    have hlt := lt_of_after hend h1
    omega
  · rw [h1] at hrel
    generalize hm' : sem.after m' n = o at hrel
    cases hrel with
    | some h => exact ⟨_, rfl, h⟩

lemma step_cases (h : m.Onto K m') (h1 : sem.after m' n = some m1')
    (h2 : sem.after m' (n + 1) = some m2') :
    (∃ m1 m2, sem.after m n = some m1 ∧ sem.after m (n + 1) = some m2 ∧ m1.Onto K m1' ∧
      m2.Onto K m2') ∨ ∃ d a w, d ≤ n ∧ sem.after m d = some (.code (.done a) .nothing w) ∧
        sem.after m' d = some (.code (.done a) K w) := by
  rcases h.after sem (n + 1) with ⟨d, a, w, hd, hover, hover'⟩ | hrel
  · exact .inr ⟨d, a, w, Nat.le_of_lt_succ hd, hover, hover'⟩
  · rcases h.after sem n with ⟨d, a, w, hd, hover, hover'⟩ | hrel1
    · exact .inr ⟨d, a, w, hd.le, hover, hover'⟩
    · rw [h2] at hrel
      rw [h1] at hrel1
      generalize hm2 : sem.after m (n + 1) = o at hrel
      generalize hm1 : sem.after m n = o1 at hrel1
      cases hrel with
      | some hr =>
        cases hrel1 with
        | some hr1 => exact .inl ⟨_, _, rfl, rfl, hr1, hr⟩

end Moment.Onto

end Context

/-! ## Programs that write by rendering -/

def ViewState.writesTo (s : ViewState C) (t : TargetId) : Nat :=
  s.targets[t.index]?.elim 0 Target.writes

variable {s : ViewState C}

lemma ViewState.writesTo_of_target (hy : s.targets[t.index]? = some y) :
    s.writesTo t = y.writes := by
  rw [writesTo, hy]
  rfl

lemma ViewState.target_of_writesTo (h : s.writesTo t ≠ 0) :
    ∃ y, s.targets[t.index]? = some y ∧ s.writesTo t = y.writes := by
  cases hy : s.targets[t.index]? with
  | none =>
    rw [writesTo, hy] at h
    exact absurd rfl h
  | some y => exact ⟨y, rfl, writesTo_of_target hy⟩

lemma View.eq_of_writesTo_written (h : (written i data html t' s).writesTo t ≠ s.writesTo t) :
    t = t' := by
  by_contra hne
  refine h ?_
  have hindex : t'.index ≠ t.index := fun heq => hne (congrArg TargetId.mk heq.symm)
  rw [writesTo, written, Array.getElem?_modify, if_neg hindex]
  rfl

/-- Operations that replace the content of no target by themselves. -/
def Op.Spares : C.Op → Prop
  | .modify f => ∀ s t, (f s).writesTo t = s.writesTo t
  | _ => True

lemma Op.IsOrdinary.spares {op : C.Op} (h : op.IsOrdinary) : op.Spares := by
  cases op with
  | modify f =>
    intro s t
    rw [writesTo, (h s).2]
    rfl
  | _ => trivial

/-- A program that replaces the content of targets only by rendering instances. -/
inductive View.Renders : {α : Type} → View C α → Prop
  | done (a : α) : Renders (.done a)
  | step {α : Type} {op : C.Op} {next : op.Reply → View C α} (hop : op.Spares)
      (hnext : ∀ r, Renders (next r)) : Renders (.step op next)
  | renderTop (i : InstanceId) (hf : ∀ r, Renders (f r)) : Renders (renderTop i >>= f)

namespace View

variable {p : View C α}

lemma Renders.bind {f : α → View C β} (hp : p.Renders) (hf : ∀ a, (f a).Renders) :
    Renders (p >>= f) := by
  induction hp with
  | done a => exact hf a
  | step hop _ ih => exact .step hop ih
  | renderTop i _ ih =>
    rw [bind_assoc]
    exact .renderTop i ih

lemma Renders.of_only (hp : p.Only Op.Spares) : p.Renders := by
  induction p with
  | done a => exact .done a
  | step op next ih => exact .step hp.1 fun r => ih r (hp.2 r)

lemma renders_ordinary (hp : p.Only Op.IsOrdinary) : p.Renders :=
  .of_only (hp.imp fun _ => Op.IsOrdinary.spares)

lemma renders_modest (hp : p.Modest) : p.Renders :=
  renders_ordinary (hp.imp fun _ => Op.IsModest.isOrdinary)

lemma renders_modify {f : ViewState C → ViewState C}
    (hf : ∀ s t, (f s).writesTo t = s.writesTo t) : Renders (modify f) :=
  .step hf fun _ => .done ()

section

variable (i)

lemma renders_modifyInstance (f : C.Instance → C.Instance) : Renders (modifyInstance i f) :=
  renders_modify fun _ _ => rfl

lemma renders_instance? : Renders (C := C) (instance? i) := .step trivial fun _ => .done _

lemma renders_endMountEffect : Renders (C := C) (endMountEffect i) := by
  refine (renders_instance? i).bind fun x => ?_
  split
  · exact (renders_modifyInstance i _).bind fun _ => .step trivial fun _ => .done _
  · exact .done ()

lemma renders_newTarget (selector : String) : Renders (C := C) (newTarget selector) := by
  refine .step (fun s t => ?_) fun _ => .done _
  show (s.targets.push {})[t.index]?.elim 0 Target.writes = _
  rw [Array.getElem?_push, writesTo]
  split
  · rename_i ht
    rw [Array.getElem?_eq_none (Nat.le_of_eq ht.symm)]
    rfl
  · rfl

lemma renders_clearHandlers (t : TargetId) : Renders (C := C) (clearHandlers t) := by
  refine renders_modify fun s t' => ?_
  show (s.targets.modify t.index _)[t'.index]?.elim 0 Target.writes = _
  rw [Array.getElem?_modify, writesTo]
  split
  · cases s.targets[t'.index]? <;> rfl
  · rfl

lemma renders_mountTarget (t : TargetId) :
    Renders (C := C) (mountTarget i t) := by
  refine (renders_modifyInstance i _).bind fun _ => .step trivial fun e => ?_
  refine (renders_instance? i).bind fun x => ?_
  split
  · exact .step trivial fun _ => .done _
  · refine (renders_modifyInstance i _).bind fun _ => ?_
    split
    · exact .step trivial fun _ => .done _
    · exact .done ()

lemma renders_detach : Renders (C := C) (detach i) := by
  refine (renders_endMountEffect i).bind fun _ => (renders_instance? i).bind fun x => ?_
  cases x with
  | none => exact .done none
  | some x =>
    refine (renders_modifyInstance i _).bind fun _ => .bind ?_ fun _ => .done (some x)
    cases x.target with
    | none => exact .done ()
    | some t => exact renders_clearHandlers t

end

def writingByRendering : Manner C where
  Keeps := Renders
  done := .done
  bind := .bind
  ordinary := renders_ordinary
  modifyInstance i f _ := renders_modifyInstance i f
  endMountEffect := renders_endMountEffect
  create d o := (renders_modest (modest_construct d o)).bind fun _ =>
    .step (fun _ _ => rfl) fun _ => .done _
  newTarget := renders_newTarget
  renderTop i := bind_pure (View.renderTop i) ▸ .renderTop i .done
  mountTarget := renders_mountTarget
  detach := renders_detach

lemma renders_semantics (hb : b.Uses) (c : Code C) : Renders (semantics b c) :=
  writingByRendering.semantics hb c

end View

/-! ## Every write ends a rendering -/

/-- The content of a target is replaced in the `n`-th step of a run. -/
def Semantics.Writes (sem : Semantics C.signature) (m0 : C.Moment) (n : Nat)
    (t : TargetId) : Prop :=
  ∃ m m', sem.after m0 n = some m ∧ sem.after m0 (n + 1) = some m' ∧
    m'.world.state.writesTo t ≠ m.world.state.writesTo t

/-- A rendering of an instance that begins at the `l`-th moment of a run, in the world `w`, and
returns at the `n`-th, in the world `w1`. -/
def View.Rendering (b : Behaviour C) (m0 : C.Moment) (i : InstanceId) (l n : Nat)
    (w w1 : C.World) : Prop :=
  ∃ (β : Type) (f : Rendered → View C β) (k : C.Pending β) (rendered : Rendered)
    (bound : Nat),
    (semantics b).after m0 l = some (.code (renderTop i >>= f) k w) ∧
    (renderTop i).run ((semantics b).caller bound) w = some (rendered, w1) ∧
    (semantics b).after m0 n = some (.code (f rendered) k w1)

/-- A rendering that began before returns after the `n`-th step of a run, with the instance mounted
on a target. -/
def View.EndsRendering (b : Behaviour C) (m0 : C.Moment) (n : Nat) (t : TargetId) : Prop :=
  ∃ i l w w1, l ≤ n ∧ Rendering b m0 i l (n + 1) w w1 ∧ w1.state.targetOf i = some t

section Writes

variable {sem : Semantics C.signature} {call : C.Caller}

lemma View.Rendering.later (hd : (semantics b).after m0 d = some m1)
    (h : Rendering b m1 i l n w w1) : Rendering b m0 i (d + l) (d + n) w w1 := by
  obtain ⟨β, f, k, rendered, bound, hbegins, hrun, hreturns⟩ := h
  exact ⟨β, f, k, rendered, bound, (after_from hd l).trans hbegins, hrun,
    (after_from hd n).trans hreturns⟩

lemma View.Rendering.onto (h : Rendering b m i l n w w1) (honto : m.Onto K m') :
    Rendering b m' i l n w w1 := by
  obtain ⟨β, f, k, rendered, bound, hbegins, hrun, hreturns⟩ := h
  obtain ⟨m1, hm1, honto1⟩ := honto.after_some hbegins
  obtain ⟨m2, hm2, honto2⟩ := honto.after_some hreturns
  cases honto1 with
  | code _ hk =>
    cases honto2 with
    | code _ hk' =>
      cases hk.unique hk'
      exact ⟨β, f, _, rendered, bound, hm1, hrun, hm2⟩

lemma View.EndsRendering.later (hd : (semantics b).after m0 d = some m1)
    (h : EndsRendering b m1 n t) : EndsRendering b m0 (d + n) t := by
  obtain ⟨i, l, w, w1, hl, hrendering, ht⟩ := h
  exact ⟨i, d + l, w, w1, Nat.add_le_add_left hl d, hrendering.later hd, ht⟩

lemma View.EndsRendering.onto (h : EndsRendering b m n t) (honto : m.Onto K m') :
    EndsRendering b m' n t := by
  obtain ⟨i, l, w, w1, hl, hrendering, ht⟩ := h
  exact ⟨i, l, w, w1, hl, hrendering.onto honto, ht⟩

lemma Semantics.Writes.next (h : sem.Writes m0 n t) : ∃ m1, m0.next sem = some m1 := by
  obtain ⟨m, m', -, hm', -⟩ := h
  obtain ⟨m1, hnext, -⟩ := Option.bind_eq_some_iff.mp hm'
  exact ⟨m1, hnext⟩

lemma Semantics.Writes.of_succ (h : sem.Writes m0 (n + 1) t) (hnext : m0.next sem = some m1) :
    sem.Writes m1 n t := by
  obtain ⟨m, m', hm, hm', hwrites⟩ := h
  rw [after, hnext] at hm hm'
  exact ⟨m, m', hm, hm', hwrites⟩

lemma Semantics.Writes.tail (h : sem.Writes m0 n t) (hnext : m0.next sem = some m1)
    (hsame : m1.world.state.writesTo t = m0.world.state.writesTo t) :
    ∃ n', n = n' + 1 ∧ sem.Writes m1 n' t := by
  cases n with
  | zero =>
    obtain ⟨m, m', hm, hm', hwrites⟩ := h
    rw [after, hnext] at hm'
    cases hm
    cases hm'
    exact absurd hsame hwrites
  | succ n => exact ⟨n, rfl, h.of_succ hnext⟩

lemma Semantics.Writes.cases_onto (honto : m.Onto K m') (h : sem.Writes m' n t) :
    sem.Writes m n t ∨ ∃ d j a w, n = d + j ∧ sem.after m d = some (.code (.done a) .nothing w) ∧
      sem.after m' d = some (.code (.done a) K w) ∧ sem.Writes (.code (.done a) K w) j t := by
  obtain ⟨m1', m2', hm1', hm2', hwrites⟩ := h
  rcases honto.step_cases hm1' hm2' with ⟨m1, m2, hm1, hm2, h1, h2⟩ | ⟨d, a, w, hd, hover, hover'⟩
  · rw [h1.world, h2.world] at hwrites
    exact .inl ⟨m1, m2, hm1, hm2, hwrites⟩
  · obtain ⟨j, rfl⟩ := Nat.exists_eq_add_of_le hd
    rw [after_from hover'] at hm1'
    rw [Nat.add_assoc, after_from hover'] at hm2'
    exact .inr ⟨d, j, a, w, rfl, hover, hover', m1', m2', hm1', hm2', hwrites⟩

lemma Op.Spares.inert {op : C.Op} (hop : op.Spares) (hinert : op.IsInert) {r : op.Reply}
    (hr : op.perform call w = some (r, w')) (t : TargetId) :
    w'.state.writesTo t = w.state.writesTo t := by
  rcases hinert.cases hr with ⟨e, rfl, rfl⟩ | ⟨e, rfl, rfl⟩ | ⟨f, rfl, rfl⟩ | ⟨-, -, -, hrec⟩
  · rw [World.state_dispose]
  · rfl
  · exact hop w.state t
  · rw [hrec.state]

/-- A program that runs no code and spares targets may be left out. -/
lemma Semantics.Writes.drop (hp : p.Only fun op => op.IsInert ∧ op.Spares)
    (hrun : p.run call w = some (a, w')) (h : sem.Writes (.code (p >>= g) k w) n t) :
    ∃ d j, n = d + j ∧ sem.after (.code (p >>= g) k w) d = some (.code (g a) k w') ∧
      sem.Writes (.code (g a) k w') j t := by
  induction p generalizing w n with
  | done b =>
    cases hrun
    exact ⟨0, n, (Nat.zero_add n).symm, rfl, h⟩
  | step op next ih =>
    obtain ⟨⟨hinert, hspares⟩, hrest⟩ := hp
    obtain ⟨r, w1, hop, hrun⟩ := Program.of_run_step hrun
    have hnext : (code (.step op next >>= g) k w).next sem =
        some (.code (next r >>= g) k w1) := by
      show op.start sem _ k w = _
      rw [Op.start_of_inert hinert, hinert.perform_eq _ call, hop]
      rfl
    obtain ⟨n, rfl, htail⟩ := h.tail hnext (hspares.inert hinert hop t)
    obtain ⟨d, j, rfl, hd, hlast⟩ := ih r (hrest r) hrun htail
    refine ⟨d + 1, j, Nat.add_right_comm d j 1, ?_, hlast⟩
    rw [after, hnext, Option.bind_some, hd]

end Writes

namespace View

lemma only_settled (i : InstanceId) (r : Except RenderError String) :
    (settled (C := C) i r).Only fun op => op.IsInert ∧ op.Spares := by
  cases r with
  | ok html => exact ⟨⟨trivial, trivial⟩, fun _ => trivial⟩
  | error e =>
    exact ⟨⟨trivial, trivial⟩, fun _ => ⟨⟨trivial, trivial⟩, fun _ =>
      ⟨⟨trivial, trivial⟩, fun _ => trivial⟩⟩⟩

lemma run_settled (call : C.Caller) (i : InstanceId) (r : Except RenderError String) (w : C.World) :
    (settled i r).run call w =
      some ((outcome w.state.settings r, w.state.targetOf i), w.write (renderReport r)) := by
  rw [settled, Program.run_bind, run_settle, Option.bind_some]
  rfl

/-- A moment at which a run on its own begins: nothing waits for its result. -/
inductive Begins : C.Moment → Prop
  | code {α : Type} {p : View C α} (hp : p.Renders) (w : C.World) :
      Begins (.code p .nothing w)
  | turns (es : List EffectId) (slots : List Slot) (w : C.World) :
      Begins (.turns es slots .nothing w)

section

variable {b : Behaviour C}

def Accounts (b : Behaviour C) (t : TargetId) (n : Nat) : Prop :=
  ∀ j < n, ∀ {m}, Begins m → (semantics b).Writes m j t → EndsRendering b m j t

lemma EndsRendering.of_tail (hw : (semantics b).Writes m0 n t)
    (hnext : m0.next (semantics b) = some m1)
    (hsame : m1.world.state.writesTo t = m0.world.state.writesTo t)
    (h : ∀ {j}, n = j + 1 → (semantics b).Writes m1 j t → EndsRendering b m1 j t) :
    EndsRendering b m0 n t := by
  obtain ⟨j, rfl, htail⟩ := hw.tail hnext hsame
  have hone : (semantics b).after m0 1 = some m1 := by rw [after, hnext]; rfl
  rw [Nat.add_comm]
  exact (h rfl htail).later hone

lemma Accounts.nested (ih : Accounts b t n) (hm : Begins m) (honto : m.Onto K m') (hj : j < n)
    (hw : (semantics b).Writes m' j t) (hK : ∀ {a w j'}, j' ≤ j → (semantics b).Writes (.code (.done
    a) K w) j' t → EndsRendering b (.code (.done a) K w) j' t) : EndsRendering b m' j t := by
  rcases hw.cases_onto honto with hw | ⟨d, j', a, w, rfl, -, hover, hw⟩
  · exact (ih j hj hm hw).onto honto
  · exact (hK (Nat.le_add_left _ _) hw).later hover

variable {f : Rendered → View C β} {p : View C α}

section

variable (ih : Accounts b t n)
include ih

lemma Accounts.goOn {next : α → View C β} (hnext : ∀ a, (next a).Renders) (hj : j ≤ n)
    (hw : (semantics b).Writes (.code (.done a) (.goOn next .nothing) w) j t) :
    EndsRendering b (.code (.done a) (.goOn next .nothing) w) j t :=
  .of_tail hw rfl rfl fun hj' hw => ih _ (by omega) (.code (hnext a) w) hw

/-- Who accounts for what is written once the template has been rendered: if the instance is
mounted, the next write is that of its own target. -/
lemma Accounts.publish (hf : ∀ r, (f r).Renders) (hj : j < n)
    (hw : (semantics b).Writes (.code (publish i data r >>= f) .nothing w) j t) :
    EndsRendering b (.code (publish i data r >>= f) .nothing w) j t ∨
      w.state.targetOf i = some t ∧
      (semantics b).after (.code (publish i data r >>= f) .nothing w) (j + 1) =
        some (.code (f (outcome w.state.settings r)) .nothing { w.write (renderReport r) with
          state := written i data (outcome w.state.settings r).html t w.state }) := by
  rw [View.publish, bind_assoc] at hw ⊢
  -- settling writes no target, so the write comes after it
  obtain ⟨d, j, rfl, hd, hlast⟩ := hw.drop (only_settled i r) (run_settled (fun _ _ => none) i r w)
  cases htarget : w.state.targetOf i with
  | none =>
    simp only [htarget] at hd hlast
    exact .inl ((ih j (by omega) (.code (hf _) _) hlast).later hd)
  | some t' =>
    simp only [htarget] at hd hlast
    have hnext : (code (post i data (outcome w.state.settings r) (some t') >>= f) .nothing
        (w.write (renderReport r))).next (semantics b) =
        some (.code (f (outcome w.state.settings r)) .nothing { w.write (renderReport r) with
          state := written i data (outcome w.state.settings r).html t' w.state }) := rfl
    have hwritten := after_next hd hnext
    cases j with
    | zero =>
      obtain ⟨m, m', hm, hm', hwrites⟩ := hlast
      rw [after, hnext] at hm'
      cases hm
      cases hm'
      cases eq_of_writesTo_written hwrites
      exact .inr ⟨rfl, hwritten⟩
    | succ j =>
      have hrest := ih j (by omega) (.code (hf _) _) (hlast.of_succ hnext)
      rw [Nat.add_comm j 1, ← Nat.add_assoc]
      exact .inl (hrest.later hwritten)

/-- A rendering accounts for what it writes: it ends with that, or else the rendering of the
template accounts for it, or whoever goes on with the result. -/
lemma Accounts.renderTop (hb : b.Uses) (hf : ∀ r, (f r).Renders)
    (hw : (semantics b).Writes (.code (renderTop i >>= f) .nothing w) n t) :
    EndsRendering b (.code (renderTop i >>= f) .nothing w) n t := by
  have hlook : (semantics b).after (.code (View.renderTop i >>= f) .nothing w) 2 =
      some (.code (found i w.state.instances[i.index]? >>= f) .nothing
        { w with state := { w.state with pushed := .empty } }) := by
    rw [renderTop_eq]
    rfl
  rw [renderTop_eq] at hw
  obtain ⟨n1, rfl, hw1⟩ := hw.tail rfl rfl
  obtain ⟨n2, rfl, hw2⟩ := hw1.tail rfl rfl
  change (semantics b).Writes (.code (found i w.state.instances[i.index]? >>= f) .nothing
    { w with state := { w.state with pushed := .empty } }) n2 t at hw2
  rw [Nat.add_assoc, Nat.add_comm]
  cases hx : w.state.instances[i.index]? with
  | none =>
    rw [hx] at hlook hw2
    exact (ih n2 (by omega) (.code (hf _) _) hw2).later hlook
  | some x =>
    rw [hx] at hlook hw2
    obtain ⟨n3, rfl, hw3⟩ := hw2.tail rfl rfl
    have hcalled := after_next hlook rfl
    have honto : Onto (.goOn (fun r => View.publish i x.data r >>= f) .nothing)
        (.code (semantics b x.code) .nothing { w with state := { w.state with pushed := .empty } })
        (.code (semantics b x.code) (.goOn (fun r => View.publish i x.data r >>= f) .nothing)
          { w with state := { w.state with pushed := .empty } }) := .code _ .bottom _
    rw [show 1 + 1 + (n3 + 1) = 3 + n3 by omega]
    -- the write is made while the template is rendered, or after that
    rcases hw3.cases_onto honto with hin | ⟨d, j, r, w2, rfl, hover, hover', hw4⟩
    · have hinside := ih n3 (by omega) (.code (renders_semantics hb _) _) hin
      exact (hinside.onto honto).later hcalled
    · obtain ⟨j, rfl, hw5⟩ := hw4.tail rfl rfl
      obtain ⟨bound, hrun⟩ := Program.run_iff_after.mpr ⟨d, hover⟩
      have hcall : (semantics b).caller (bound + 1) x.code
          { w with state := { w.state with pushed := .empty } } = some (r, w2) := hrun
      have hback := after_next ((after_from hcalled d).trans hover') rfl
      rw [show 3 + (d + (j + 1)) = 3 + d + 1 + j by omega]
      rcases ih.publish hf (by omega) hw5 with hlater | ⟨ht, hend⟩
      · exact hlater.later hback
      · -- the write is its own, and the rendering returns with it
        obtain ⟨y, hy, hyt⟩ := Option.bind_eq_some_iff.mp ht
        exact ⟨i, 0, w, _, Nat.zero_le _, ⟨β, f, .nothing, _, bound + 1, rfl,
          run_renderTop hx hcall hy hyt, (after_from hback (j + 1)).trans hend⟩, ht⟩

lemma Accounts.turns (hb : b.Uses)
    (hw : (semantics b).Writes (.turns es slots .nothing w) n t) :
    EndsRendering b (.turns es slots .nothing w) n t := by
  obtain ⟨m1, hnext⟩ := hw.next
  cases step_of_next hnext with
  | drained => exact .of_tail hw hnext rfl fun hj hw => ih _ (by omega) (.code (.done ()) _) hw
  | slot | gone | refused =>
    exact .of_tail hw hnext rfl fun hj hw => ih _ (by omega) (.turns _ _ _) hw
  | @enter c e es slots k w hbody hd =>
    have hsame : (w.enter e).state.writesTo t = w.state.writesTo t := by rw [World.state_enter]
    refine .of_tail hw hnext hsame fun hj hw => ?_
    refine ih.nested (.code (renders_semantics hb c) _) (.code _ .bottom _) (by omega) hw ?_
    exact fun hj' hw => .of_tail hw rfl rfl fun _ hw => ih _ (by omega) (.turns es slots _) hw

lemma Accounts.code (hb : b.Uses) (hp : p.Renders)
    (hw : (semantics b).Writes (.code p .nothing w) n t) :
    EndsRendering b (.code p .nothing w) n t := by
  obtain ⟨m1, hnext⟩ := hw.next
  cases hp with
  | done a => cases hnext
  | renderTop i hf => exact ih.renderTop hb hf hw
  | step hop hrenders =>
    -- whatever runs before the program goes on is a run on its own
    cases step_of_next hnext with
    | inert hinert hr =>
      refine .of_tail hw hnext (hop.inert hinert hr t) fun hj hw => ?_
      exact ih _ (by omega) (.code (hrenders _) _) hw
    | call =>
      refine .of_tail hw hnext rfl fun hj hw => ?_
      refine ih.nested (.code (renders_semantics hb _) _) (.code _ .bottom _) (by omega) hw ?_
      exact fun hj' hw => ih.goOn hrenders (by omega) hw
    | within =>
      refine .of_tail hw hnext rfl fun hj hw => ?_
      refine ih.nested (.code (renders_semantics hb _) _) (.code _ .bottom _) (by omega) hw ?_
      intro a w' j' hj' hw
      exact .of_tail hw rfl rfl fun _ hw => ih.goOn hrenders (by omega) hw
    | spawn =>
      refine .of_tail hw hnext rfl fun hj hw => ?_
      refine ih.nested (.turns _ _ _) (.turns _ _ .bottom _) (by omega) hw ?_
      intro a w' j' hj' hw
      exact .of_tail hw rfl rfl fun _ hw => ih _ (by omega) (.code (hrenders _) _) hw
    | write | rerun | trigger =>
      refine .of_tail hw hnext rfl fun hj hw => ?_
      refine ih.nested (.turns _ _ _) (.turns _ _ .bottom _) (by omega) hw ?_
      exact fun hj' hw => ih.goOn (fun _ => hrenders _) (by omega) hw

end

lemma accounts (hb : b.Uses) (t : TargetId) (n : Nat) : Accounts b t n := by
  induction n with
  | zero => exact fun j hj => absurd hj (Nat.not_lt_zero j)
  | succ n ih =>
    intro j hj m0 hm0 hw
    rcases Nat.lt_succ_iff_lt_or_eq.mp hj with hj | rfl
    · exact ih j hj hm0 hw
    · cases hm0 with
      | code hp w => exact ih.code hb hp hw
      | turns es slots w => exact ih.turns hb hw

/-- A target that has been written was written by a rendering, and not since that one returned. -/
lemma rendering_of_written (hb : b.Uses) (hp : p.Uses) (hm : RunsTo b p c n m)
    (hw : m.world.state.writesTo t ≠ 0) :
    ∃ i l j w w1, l < j ∧ j ≤ n ∧ Rendering b (opening p c) i l j w w1 ∧
      w1.state.targetOf i = some t ∧ w1.state.writesTo t = m.world.state.writesTo t := by
  induction n generalizing m with
  | zero =>
    cases hm
    exact absurd rfl hw
  | succ n ih =>
    obtain ⟨m1, hm1, -⟩ := after_succ_cases hm
    by_cases hsame : m1.world.state.writesTo t = m.world.state.writesTo t
    · obtain ⟨i, l, j, w, w1, hl, hj, hrendering, ht, hwrites⟩ := ih hm1 (hsame ▸ hw)
      exact ⟨i, l, j, w, w1, hl, Nat.le_succ_of_le hj, hrendering, ht, hwrites.trans hsame⟩
    · have hwrites : (semantics b).Writes (opening p c) n t := ⟨m1, m, hm1, hm, Ne.symm hsame⟩
      obtain ⟨i, l, w, w1, hl, hrendering, ht⟩ :=
        accounts hb t (n + 1) n (Nat.lt_succ_self n) (.code (writingByRendering.of_uses hp) _) hwrites
      refine ⟨i, l, n + 1, w, w1, Nat.lt_succ_of_le hl, le_rfl, hrendering, ht, ?_⟩
      obtain ⟨β, f, k, rendered, bound, -, -, hreturns⟩ := hrendering
      cases hreturns.symm.trans hm
      rfl

end

end View

end LiveMarkup
