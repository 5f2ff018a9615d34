import LiveMarkup.Proofs.Whereabouts

/-!
# Which hooks are run, and when

The hooks of an instance for a phase are set going when its flag rises, `View.Rises`. That happens
at most once: the first time that the instance is due for the phase, `View.rises_iff`. An instance
is due for being mounted when it has been refreshed and gave markup, and for being unmounted when it
has been taken off its target.

From then on each hook of the list is run at most once, in the order of the list, and no hook is run
that has not been set going, `View.exists_tells`. Hooks may set other hooks going while they run, so
those of the two lists may come mixed. What still has to be run is known at every moment as a debt,
and every step settles it.

The phases are independent: an instance that was never mounted runs its hooks for being unmounted,
and one that is unmounted in its first rendering runs those for being mounted afterwards; `Passerby`
shows both.
-/

namespace LiveMarkup

open View Semantics ViewState List
open Client (single)
open Debt (add_of_ne add_self owed)

namespace View

/-! ## Coming to a phase -/

section Rising

variable (b : Behaviour C) (m0 : C.Moment)

/-- The hooks of an instance for a phase are set going in the step after the `n`-th moment: the
instance comes to the phase. -/
def Rises (φ : Phase) (i : InstanceId) (n : Nat) : Prop :=
  ∃ m m', (semantics b).after m0 n = some m ∧ (semantics b).after m0 (n + 1) = some m' ∧
    m.world.state.roused φ i = false ∧ m'.world.state.roused φ i = true

end Rising

variable {b : Behaviour C} {m : C.Moment} {n : Nat}
variable {i : InstanceId}

lemma Advance.ledger (h : Advance b m0 n m m' o o') : (m.hook? = none ∧ o' = o ∧
      ∀ φ i, m'.world.state.roused φ i = m.world.state.roused φ i) ∨
    (∃ φ i, Due b m0 n φ i ∧ m.hook? = none ∧ m.world.state.roused φ i = false ∧
      m'.world.state.roused φ i = true ∧ o' = Debt.add φ i (m.world.state.hooksFor φ i) o ∧
      ∀ ψ j, ¬ (ψ = φ ∧ j = i) → m'.world.state.roused ψ j = m.world.state.roused ψ j) ∨
    (∃ φ i body bs o1, m.hook? = some (i, body) ∧ o = Debt.add φ i (body :: bs) o1 ∧
      o' = Debt.add φ i bs o1 ∧ ∀ φ i, m'.world.state.roused φ i = m.world.state.roused φ i) := by
  cases h with
  | calm hcalm hhook => exact .inl ⟨hhook, rfl, hcalm.roused⟩
  | mounts hm hstate =>
    refine .inl ⟨?_, rfl, fun φ j => ?_⟩
    · rw [hm, mountTarget_eq]
      rfl
    · rw [hstate, hm]
      exact roused_changed_target _ φ _ j _
  | leaves _ hm _ hstate =>
    refine .inl ⟨?_, rfl, fun φ j => ?_⟩
    · rw [hm, leave]
      rfl
    · rw [hstate, hm]
      exact roused_changed_target _ φ _ j _
  | vacates _ _ hm hstate =>
    subst hm
    refine .inl ⟨rfl, rfl, fun φ j => ?_⟩
    rw [hstate]
    rfl
  | @rouses φ i x _ hdue hx hflag hstate hhook =>
    refine .inr (.inl ⟨φ, i, hdue, hhook, ?_, ?_, rfl, fun ψ j hne => ?_⟩)
    · rw [roused, hx]
      exact hflag
    · rw [hstate, roused_changed, if_pos rfl, hx]
      exact Phase.flag_mark φ x
    · rw [hstate, roused_changed]
      split
      · rename_i hj
        have hψ : ψ ≠ φ := fun hψ => hne ⟨hψ, hj⟩
        simp only [Phase.flag_mark_of_ne hψ]
        rfl
      · rfl
  | hook φ hhook hstate =>
    refine .inr (.inr ⟨φ, _, _, _, _, hhook, rfl, rfl, fun ψ j => ?_⟩)
    rw [hstate]

lemma Advance.roused_cases (h : Advance b m0 n m m' o o') (φ : Phase) (i : InstanceId) :
    m'.world.state.roused φ i = m.world.state.roused φ i ∨
      Due b m0 n φ i ∧ m.world.state.roused φ i = false ∧ m'.world.state.roused φ i = true := by
  rcases h.ledger with ⟨-, -, hsame⟩ | ⟨ψ, j, hdue, -, hdown, hup, -, hsame⟩ |
    ⟨-, -, -, -, -, -, -, -, hsame⟩
  · exact .inl (hsame φ i)
  · by_cases heq : φ = ψ ∧ i = j
    · obtain ⟨rfl, rfl⟩ := heq
      exact .inr ⟨hdue, hdown, hup⟩
    · exact .inl (hsame φ i heq)
  · exact .inl (hsame φ i)

lemma Due.salutes (h : Due b m0 n φ i) :
    ∃ (β : Type) (f : Unit → View C β) (k : C.Pending β) (w : C.World) (x y : C.Instance),
      (semantics b).after m0 n = some (.code (salute φ i (some x) >>= f) k w) ∧
      w.state.instances[i.index]? = some y ∧ φ.flag y = φ.flag x := by
  cases φ with
  | mounted =>
    obtain ⟨l, html, β, f, k, w, x, rfl, -, -, hl, hx⟩ := h
    have hnext := next_afterRender b i html (f := f) (k := k) (w := w)
    rw [hx] at hnext
    exact ⟨β, f, k, w, x, x, after_next hl hnext, hx, rfl⟩
  | unmounted =>
    obtain ⟨β, f, k, w, x, -, hn, hx⟩ := h
    rw [farewell_eq] at hn
    exact ⟨β, f, k, w, x, _, hn, hx, rfl⟩

lemma Due.roused_or_rises (h : Due b m0 n φ i) :
    (∃ m, (semantics b).after m0 n = some m ∧ m.world.state.roused φ i = true) ∨
      Rises b m0 φ i n := by
  obtain ⟨β, f, k, w, x, y, hn, hy, hflag⟩ := h.salutes
  have hroused : w.state.roused φ i = φ.flag x := by
    rw [roused, hy]
    exact hflag
  cases hx : φ.flag x with
  | true => exact .inl ⟨_, hn, hroused.trans hx⟩
  | false =>
    have hrouse : salute φ i (some x) = rouse φ i x := by
      rw [salute, hx]
      rfl
    rw [hrouse] at hn
    refine .inr ⟨_, _, hn, after_next hn (next_rouse b φ i x), hroused.trans hx, ?_⟩
    show (changed i φ.mark w.state).roused φ i = true
    rw [roused_changed, if_pos rfl, hy]
    exact Phase.flag_mark φ y

variable {p : View C α}

section

variable (hb : b.Abides) (hp : p.Abides)
include hb hp

lemma roused_step (hm : RunsTo b p c n m)
    (hm' : RunsTo b p c (n + 1) m') (φ : Phase) (i : InstanceId) :
    m'.world.state.roused φ i = m.world.state.roused φ i ∨ Due b (opening p c) n φ i ∧
      m.world.state.roused φ i = false ∧ m'.world.state.roused φ i = true := by
  obtain ⟨o, o', hadvance⟩ := exists_advance hb hp hm hm'
  exact hadvance.roused_cases φ i

lemma Rises.due (h : Rises b (opening p c) φ i n) : Due b (opening p c) n φ i := by
  obtain ⟨m, m', hm, hm', hdown, hup⟩ := h
  rcases roused_step hb hp hm hm' φ i with hsame | ⟨hdue, -, -⟩
  · rw [hsame, hdown] at hup
    cases hup
  · exact hdue

lemma roused_later (hm : RunsTo b p c l m)
    (hroused : m.world.state.roused φ i = true) (hl : l ≤ n) (hm' : RunsTo b p c n m') :
    m'.world.state.roused φ i = true := by
  refine after_stretch (P := fun m : C.Moment =>
    m.world.state.roused φ i = true) hm hroused ?_ hl hm'
  intro j m1 m2 _ _ hm1 hm2 h1
  rcases roused_step hb hp hm1 hm2 φ i with hsame | ⟨-, -, hup⟩
  · exact hsame.trans h1
  · exact hup

end

lemma exists_rises (hm : RunsTo b p c n m) (hroused : m.world.state.roused φ i = true) :
    ∃ l < n, Rises b (opening p c) φ i l := by
  induction n generalizing m with
  | zero =>
    cases hm
    simp [opening, Moment.world, roused] at hroused
  | succ n ih =>
    obtain ⟨m1, hm1, -⟩ := after_succ_cases hm
    cases hbefore : m1.world.state.roused φ i with
    | false => exact ⟨n, n.lt_succ_self, m1, m, hm1, hm, hbefore, hroused⟩
    | true =>
      obtain ⟨l, hl, hrises⟩ := ih hm1 hbefore
      exact ⟨l, Nat.lt_succ_of_lt hl, hrises⟩

section

variable (hb : b.Abides) (hp : p.Abides)
include hb hp

lemma Due.roused_later (h : Due b (opening p c) l φ i)
    (hl : l < n) (hm : RunsTo b p c n m) : m.world.state.roused φ i = true := by
  rcases h.roused_or_rises with ⟨m1, hm1, hup⟩ | ⟨m1, m2, hm1, hm2, -, hup⟩
  · exact View.roused_later hb hp hm1 hup hl.le hm
  · exact View.roused_later hb hp hm2 hup hl hm

lemma rises_iff : Rises b (opening p c) φ i n ↔
      Due b (opening p c) n φ i ∧ ∀ l < n, ¬ Due b (opening p c) l φ i := by
  constructor
  · intro h
    refine ⟨h.due hb hp, fun l hl hdue => ?_⟩
    obtain ⟨m, m', hm, -, hdown, -⟩ := h
    exact Bool.false_ne_true (hdown.symm.trans (hdue.roused_later hb hp hl hm))
  · rintro ⟨hdue, hfirst⟩
    rcases hdue.roused_or_rises with ⟨m, hm, hup⟩ | hrises
    · obtain ⟨l, hl, hrises⟩ := exists_rises hm hup
      exact absurd (hrises.due hb hp) (hfirst l hl)
    · exact hrises

lemma Rises.unique (h : Rises b (opening p c) φ i l)
    (h' : Rises b (opening p c) φ i n) : l = n := by
  obtain ⟨hdue, hfirst⟩ := (rises_iff hb hp).mp h
  obtain ⟨hdue', hfirst'⟩ := (rises_iff hb hp).mp h'
  rcases Nat.lt_trichotomy l n with hlt | heq | hgt
  · exact absurd hdue (hfirst' l hlt)
  · exact heq
  · exact absurd hdue' (hfirst n hgt)

end

/-! ## Hooks that are run -/

section Fired

variable (b : Behaviour C) (m0 : C.Moment)

/-- The hook of an instance that is run in the step after the `n`-th moment, if there is one. -/
def hookAt (i : InstanceId) (n : Nat) : List C.Body :=
  (((semantics b).after m0 n).bind Moment.hook?).elim [] fun h => if h.1 = i then [h.2] else []

/-- The hooks of an instance that have been run before the `n`-th moment, in order, and that are for
the phase as far as `tag` tells. -/
def fired (tag : Nat → Phase) (φ : Phase) (i : InstanceId) : Nat → List C.Body
  | 0 => []
  | n + 1 => fired tag φ i n ++ if tag n = φ then hookAt b m0 i n else []

/-- The hooks of an instance for a phase that have been set going before the `n`-th moment: those
that it had when it came to the phase, and none if it has not. -/
def SetGoing (n : Nat) (φ : Phase) (i : InstanceId) (hooks : List C.Body) : Prop :=
  (∃ l m, l < n ∧ Rises b m0 φ i l ∧ (semantics b).after m0 l = some m ∧
    hooks = m.world.state.hooksFor φ i) ∨
  (∀ l < n, ¬ Rises b m0 φ i l) ∧ hooks = []

/-- Whether `tag` tells for which phase each hook is that is run: for every instance and phase, what
has been run is a first part of what has been set going, and all of it when the run is over. -/
def Tells (tag : Nat → Phase) : Prop :=
  ∀ φ i n m, (semantics b).after m0 n = some m → ∃ hooks, SetGoing b m0 n φ i hooks ∧
    fired b m0 tag φ i n <+: hooks ∧
    ∀ (β : Type) (a : β) w, m = .code (.done a) .nothing w → fired b m0 tag φ i n = hooks

/-- How a step settles what is owed: hooks that are set going are owed, and a hook that is run is
not owed any more. -/
structure Settles (n : Nat) (ψ : Phase) (o o' : Phase → InstanceId → List C.Body) : Prop where
  rises : ∀ {φ i}, Rises b m0 φ i n → hookAt b m0 i n = [] ∧
    ∃ m, (semantics b).after m0 n = some m ∧ o' φ i = m.world.state.hooksFor φ i ++ o φ i
  runs : ∀ {φ i}, ¬ Rises b m0 φ i n → o φ i = (if ψ = φ then hookAt b m0 i n else []) ++ o' φ i

end Fired

lemma SetGoing.later (h : SetGoing b m0 n φ i hooks) (hn : ¬ Rises b m0 φ i n) :
    SetGoing b m0 (n + 1) φ i hooks := by
  rcases h with ⟨l, m, hl, hrises, hm, hhooks⟩ | ⟨hno, hhooks⟩
  · exact .inl ⟨l, m, Nat.lt_succ_of_lt hl, hrises, hm, hhooks⟩
  · refine .inr ⟨fun l hl => ?_, hhooks⟩
    rcases Nat.lt_succ_iff_lt_or_eq.mp hl with hlt | rfl
    · exact hno l hlt
    · exact hn

lemma hookAt_of_none (hm : (semantics b).after m0 n = some m) (h : m.hook? = none)
    (i : InstanceId) : hookAt b m0 i n = [] := by
  rw [hookAt, hm, Option.bind_some, h]
  rfl

lemma hookAt_of_some (hm : (semantics b).after m0 n = some m) (h : m.hook? = some (j, body))
    (i : InstanceId) : hookAt b m0 i n = if j = i then [body] else [] := by
  rw [hookAt, hm, Option.bind_some, h]
  rfl

lemma Advance.settles (h : Advance b m0 n m m' o o') (hm : (semantics b).after m0 n = some m)
    (hm' : (semantics b).after m0 (n + 1) = some m') : ∃ ψ, Settles b m0 n ψ o o' := by
  have flat : ∀ {φ i}, m'.world.state.roused φ i = m.world.state.roused φ i →
      ¬ Rises b m0 φ i n := by
    rintro φ i hsame ⟨m1, m2, hm1, hm2, hdown, hup⟩
    cases hm.symm.trans hm1
    cases hm'.symm.trans hm2
    rw [hsame, hdown] at hup
    cases hup
  rcases h.ledger with ⟨hhook, rfl, hsame⟩ | ⟨ψ, j, -, hhook, hdown, hup, rfl, hsame⟩ |
    ⟨ψ, j, body, bs, o1, hhook, rfl, rfl, hsame⟩
  · refine ⟨.mounted, fun h => absurd h (flat (hsame _ _)), fun {φ i} _ => ?_⟩
    rw [hookAt_of_none hm hhook, ite_self]
    rfl
  · refine ⟨.mounted, fun {φ i} hup => ⟨hookAt_of_none hm hhook i, m, hm, ?_⟩, fun {φ i} hno => ?_⟩
    · by_cases heq : φ = ψ ∧ i = j
      · obtain ⟨rfl, rfl⟩ := heq
        exact add_self
      · exact absurd hup (flat (hsame φ i heq))
    · have hne : ¬ (φ = ψ ∧ i = j) := by
        rintro ⟨rfl, rfl⟩
        exact hno ⟨m, m', hm, hm', hdown, hup⟩
      rw [hookAt_of_none hm hhook, ite_self, add_of_ne hne]
      rfl
  · refine ⟨ψ, fun h => absurd h (flat (hsame _ _)), fun {φ i} _ => ?_⟩
    rw [hookAt_of_some hm hhook]
    by_cases heq : φ = ψ ∧ i = j
    · obtain ⟨rfl, rfl⟩ := heq
      rw [if_pos rfl, if_pos rfl, add_self, add_self]
      rfl
    · have hnone : (if ψ = φ then if j = i then [body] else [] else []) = [] := by
        split
        · rename_i hφ
          exact if_neg fun hi => heq ⟨hφ.symm, hi.symm⟩
        · rfl
      rw [hnone, add_of_ne heq, add_of_ne heq]
      rfl

lemma owed_of_over (h : Moment.Orderly b m0 n ds (.code (.done a) .nothing w)) (φ : Phase)
    (i : InstanceId) : owed ds φ i = [] := by
  generalize hm : Moment.code (.done a) .nothing w = m at h
  cases h with
  | code hp hk =>
    cases hm
    cases hk
    rfl
  | turns | vacating | rousing | roused => cases hm
  | leaving =>
    rw [leave] at hm
    cases hm
  | @hooks _ _ _ _ _ bs _ _ _ hk =>
    cases bs with
    | nil =>
      injection hm with hα _ hk'
      subst hα
      cases eq_of_heq hk'
      cases hk
      rw [owed, Debt.add_nil]
      rfl
    | cons => cases hm

/-- The debts of a whole run can be told, and for each hook that is run which phase it is for. -/
lemma exists_debts (hb : b.Abides) (hp : p.Abides) :
    ∃ (ds : Nat → List (Debt C)) (tag : Nat → Phase), ds 0 = [] ∧
      (∀ n m, RunsTo b p c n m → Moment.Orderly b (opening p c) n (ds n) m) ∧
      ∀ n m, RunsTo b p c (n + 1) m →
        Settles b (opening p c) n (tag n) (owed (ds n)) (owed (ds (n + 1))) := by
  -- what is owed depends on what was owed before, so debts are chosen one after the other
  have hnext : ∀ n ds, ∃ ds' ψ, ∀ m m', RunsTo b p c n m → RunsTo b p c (n + 1) m' →
      Moment.Orderly b (opening p c) n ds m → Moment.Orderly b (opening p c) (n + 1) ds' m' ∧
        Settles b (opening p c) n ψ (owed ds) (owed ds') := by
    intro n ds
    by_cases h : ∃ m m', RunsTo b p c n m ∧ RunsTo b p c (n + 1) m' ∧
        Moment.Orderly b (opening p c) n ds m
    · obtain ⟨m, m', hm, hm', hds⟩ := h
      obtain ⟨ds', hds', hadvance⟩ := advance_after hb hp hds hm hm'
      obtain ⟨ψ, hsettles⟩ := hadvance.settles hm hm'
      refine ⟨ds', ψ, fun m1 m2 hm1 hm2 _ => ?_⟩
      cases hm'.symm.trans hm2
      exact ⟨hds', hsettles⟩
    · exact ⟨[], .mounted, fun m m' hm hm' hds => absurd ⟨m, m', hm, hm', hds⟩ h⟩
  choose after ψ hafter using hnext
  let ds : Nat → List (Debt C) := Nat.rec [] after
  have horderly : ∀ n m, RunsTo b p c n m → Moment.Orderly b (opening p c) n (ds n) m := by
    intro n
    induction n with
    | zero =>
      intro m hm
      cases hm
      exact .code hp.orderly .nothing
    | succ n ih =>
      intro m hm
      obtain ⟨m1, hm1, -⟩ := after_succ_cases hm
      exact (hafter n (ds n) m1 m hm1 hm (ih m1 hm1)).1
  refine ⟨ds, fun n => ψ n (ds n), rfl, horderly, fun n m hm => ?_⟩
  obtain ⟨m1, hm1, -⟩ := after_succ_cases hm
  exact (hafter n (ds n) m1 m hm1 hm (horderly n m1 hm1)).2

/-- In every run of an application that keeps to the interface, hooks can be told apart by phase. -/
lemma exists_tells (hb : b.Abides) (hp : p.Abides) : ∃ tag, Tells b (opening p c) tag := by
  obtain ⟨ds, tag, hzero, horderly, hsettles⟩ := exists_debts (c := c) hb hp
  -- what has been set going has been run or is still owed
  have balance : ∀ φ i n m, RunsTo b p c n m →
      SetGoing b (opening p c) n φ i (fired b (opening p c) tag φ i n ++ owed (ds n) φ i) := by
    intro φ i n
    induction n with
    | zero =>
      intro m _
      rw [hzero]
      exact .inr ⟨nofun, rfl⟩
    | succ n ih =>
      intro m hm
      obtain ⟨m1, hm1, -⟩ := after_succ_cases hm
      rw [fired, append_assoc]
      by_cases hrises : Rises b (opening p c) φ i n
      · -- nothing was set going before, so nothing was run or owed
        have hnone : fired b (opening p c) tag φ i n ++ owed (ds n) φ i = [] := by
          rcases ih m1 hm1 with ⟨l, -, hl, hbefore, -⟩ | ⟨-, hnil⟩
          · exact absurd (hbefore.unique hb hp hrises) hl.ne
          · exact hnil
        obtain ⟨hfired, howed⟩ := append_eq_nil_iff.mp hnone
        obtain ⟨hhook, m2, hm2, hset⟩ := (hsettles n m hm).rises hrises
        rw [hfired, hhook, ite_self, hset, howed, append_nil]
        exact .inl ⟨n, m2, n.lt_succ_self, hrises, hm2, rfl⟩
      · rw [← (hsettles n m hm).runs hrises]
        exact (ih m1 hm1).later hrises
  refine ⟨tag, fun φ i n m hm => ⟨_, balance φ i n m hm, prefix_append _ _, ?_⟩⟩
  intro β a w hover
  rw [owed_of_over (hover ▸ horderly n m hm) φ i, append_nil]

/-- For every instance: its hooks for a phase are set going once, the first time that it is due for
the phase. Each hook that is run for it is for one of the phases, and is the next one in the list of
hooks that were set going for that phase. When the run is over, all of them have been run. -/
theorem hooks_fire_once (hb : b.Abides) (hp : p.Abides) (i : InstanceId) :
    (∀ φ l n, Rises b (opening p c) φ i l → Rises b (opening p c) φ i n → l = n) ∧
    (∀ φ n, Rises b (opening p c) φ i n ↔
      Due b (opening p c) n φ i ∧ ∀ l < n, ¬ Due b (opening p c) l φ i) ∧
    ∃ tag : Nat → Phase, ∀ φ n m, (semantics b).after (opening p c) n = some m →
      ∃ hooks, SetGoing b (opening p c) n φ i hooks ∧
        fired b (opening p c) tag φ i n <+: hooks ∧
        ∀ (β : Type) (a : β) w, m = .code (.done a) .nothing w →
          fired b (opening p c) tag φ i n = hooks := by
  refine ⟨fun φ l n h h' => h.unique hb hp h', fun φ n => rises_iff hb hp, ?_⟩
  obtain ⟨tag, htag⟩ := exists_tells (c := c) hb hp
  exact ⟨tag, fun φ n m hm => htag φ i n m hm⟩

/-! ## Where an instance is when its hooks are run -/

lemma exists_rises_iff (hb : b.Abides) (hp : p.Abides) :
    (∃ l < n, Rises b (opening p c) φ i l) ↔ ∃ l < n, Due b (opening p c) l φ i := by
  constructor
  · rintro ⟨l, hl, hrises⟩
    exact ⟨l, hl, hrises.due hb hp⟩
  · rintro ⟨l, hl, hdue⟩
    rcases hdue.roused_or_rises with ⟨m, hm, hup⟩ | hrises
    · obtain ⟨l', hl', hrises⟩ := exists_rises hm hup
      exact ⟨l', hl'.trans hl, hrises⟩
    · exact ⟨l, hl, hrises⟩

lemma Rises.hook?_eq_none (hb : b.Abides) (hp : p.Abides) (h : Rises b (opening p c) φ i n)
    (hm : RunsTo b p c n m) : m.hook? = none := by
  obtain ⟨m1, m2, hm1, hm2, hdown, hup⟩ := h
  cases hm.symm.trans hm1
  obtain ⟨o, o', hadvance⟩ := exists_advance hb hp hm hm2
  rcases hadvance.ledger with ⟨hnone, -⟩ | ⟨-, -, -, hnone, -⟩ | ⟨-, -, -, -, -, -, -, -, hsame⟩
  · exact hnone
  · exact hnone
  · rw [hsame, hdown] at hup
    cases hup

lemma exists_next_of_hook (h : m.hook? = some (i, body)) :
    ∃ m', m.next (semantics b) = some m' := by
  cases m with
  | turns => cases h
  | code q k w =>
    cases q with
    | done a => cases h
    | step op next =>
      cases op with
      | call | within | spawn => exact ⟨_, rfl⟩
      | _ => cases h

lemma Tells.exists_rises (h : Tells b (opening p c) tag) (hb : b.Abides) (hp : p.Abides)
    (hm : RunsTo b p c n m) (hhook : m.hook? = some (i, body)) :
    ∃ l m', l < n ∧ Rises b (opening p c) (tag n) i l ∧ RunsTo b p c l m' ∧
      body ∈ m'.world.state.hooksFor (tag n) i := by
  obtain ⟨m', hnext⟩ := exists_next_of_hook (b := b) hhook
  obtain ⟨hooks, hset, hprefix, -⟩ := h (tag n) i (n + 1) m' (after_next hm hnext)
  rw [fired, if_pos rfl, hookAt_of_some hm hhook, if_pos rfl] at hprefix
  have hmem : body ∈ hooks := hprefix.subset (mem_append.mpr (.inr (mem_singleton.mpr rfl)))
  rcases hset with ⟨l, m1, hl, hrises, hm1, rfl⟩ | ⟨-, rfl⟩
  · rcases Nat.lt_succ_iff_lt_or_eq.mp hl with hlt | rfl
    · exact ⟨l, m1, hlt, hrises, hm1, hmem⟩
    · rw [hrises.hook?_eq_none hb hp hm] at hhook
      cases hhook
  · cases hmem

/-- A hook is run for a phase that the instance has come to, and is one of those that it had then.

* When a hook for being unmounted is run, the hooks for being mounted have been set going if and
  only if the instance has been refreshed and gave markup. It need never have been mounted.
* When a hook for being mounted is run, the instance has been mounted. It is mounted then if and only
  if it has not been unmounted since it was mounted last. -/
theorem hooks_run_whether_mounted (hb : b.Abides) (hp : p.Abides) {tag : Nat → Phase}
    (htag : Tells b (opening p c) tag) (hm : (semantics b).after (opening p c) n = some m)
    {body : C.Body} (hhook : m.hook? = some (i, body)) :
    (∃ l m', l < n ∧ Rises b (opening p c) (tag n) i l ∧
      (semantics b).after (opening p c) l = some m' ∧
      body ∈ m'.world.state.hooksFor (tag n) i) ∧
    (tag n = .unmounted → ((∃ l < n, Rises b (opening p c) .mounted i l) ↔
      ∃ l < n, Due b (opening p c) l .mounted i)) ∧
    (tag n = .mounted → WasMounted b (opening p c) n i ∧
      ((m.world.state.targetOf i).isSome ↔ ∃ l t, l < n ∧ MountsOn b (opening p c) i t l ∧
        ∀ j, l < j → j < n → ¬ Leaves b (opening p c) i j)) := by
  have hset := htag.exists_rises hb hp hm hhook
  refine ⟨hset, fun _ => exists_rises_iff hb hp, fun hmounted => ⟨?_, ?_⟩⟩
  · rw [hmounted] at hset
    obtain ⟨l, -, hl, hrises, -⟩ := hset
    obtain ⟨l', _, _, _, k, _, _, rfl, hrefreshes, -⟩ := hrises.due hb hp
    exact hrefreshes.wasMounted.mono (by omega)
  · exact isSome_targetOf_iff hb hp hm

end View

/-! ### A visitor who leaves as soon as it is greeted -/

namespace Visitor

/-- As a hook, the code unmounts the instance. -/
def behaviour : Behaviour .single where
  invoke _ occasion :=
    match occasion with
    | .hook i => unmount i >>= fun _ => .done (.ok .undefined)
    | _ => .done (.ok .undefined)
  task t := nomatch t

/-- A card with two hooks for being mounted and one for being unmounted. -/
def card : Definition single.Body where
  name := "card"
  source := .routine (.fixed "Ann")
  mounted := [(), ()]
  unmounted := [()]

def visit : View .single Unit :=
  construct card {} >>= keep >>= fun i => newTarget "#door" >>= fun t =>
    mountTarget i t >>= fun _ => mountTarget i t >>= fun _ =>
      unmount i >>= .done

lemma abides_behaviour : behaviour.Abides := by
  refine ⟨fun _ occasion => ?_, nofun⟩
  cases occasion with
  | hook i => exact .unmount i fun _ => .done _
  | _ => exact .done _

lemma abides_visit : visit.Abides :=
  .create card {} fun i => .newTarget "#door" fun t => .mountTarget i t fun _ =>
    .mountTarget i t fun _ => .unmount i fun _ => .done ()

def number : Phase → Nat
  | .mounted => 2
  | .unmounted => 1

/-- When the card comes to a phase it has its hooks. -/
def prepared (m : Moment single.signature) : Bool :=
  (m.next (semantics behaviour)).all fun m' => [Phase.mounted, .unmounted].all fun φ =>
    m.world.state.roused φ ⟨0⟩ || !m'.world.state.roused φ ⟨0⟩ ||
      (m.world.state.hooksFor φ ⟨0⟩).length == number φ

/-- The run is over, and the card has come to both phases. -/
def isOver : Moment single.signature → Bool
  | .code (.done _) .nothing w => w.state.roused .mounted ⟨0⟩ && w.state.roused .unmounted ⟨0⟩
  | _ => false

lemma number_of_setGoing (hm : (semantics behaviour).after (opening visit ()) 87 = some m)
    (hroused : m.world.state.roused φ ⟨0⟩ = true)
    (h : SetGoing behaviour (opening visit ()) 87 φ ⟨0⟩ hooks) : hooks.length = number φ := by
  have hcheck : (semantics behaviour).passes prepared (opening visit ()) 87 = true := by
    decide +kernel
  rcases h with ⟨l, m1, hl, ⟨m2, m3, hm2, hm3, hdown, hup⟩, hm1, rfl⟩ | ⟨hno, -⟩
  · cases hm1.symm.trans hm2
    have hl := check_of_passes hcheck hl.le hm1
    rw [prepared, next_of_after hm1 hm3, Option.all_some, all_eq_true] at hl
    have hφ : φ ∈ [Phase.mounted, .unmounted] := by cases φ <;> simp
    have hnumber := hl φ hφ
    rw [hdown, hup] at hnumber
    exact beq_iff_eq.mp hnumber
  · obtain ⟨l, hl, hrises⟩ := exists_rises hm hroused
    exact absurd hrises (hno l hl)

/-- When the run is over, the two hooks of the card for being mounted have been run, and the one for
being unmounted, each of them once. -/
theorem hooks_fire_once_visitor :
    ∃ m tag, (View.semantics behaviour).after (View.opening visit ()) 87 = some m ∧
      ∀ φ, (View.fired behaviour (View.opening visit ()) tag φ ⟨0⟩ 87).length = number φ := by
  have hover : ((semantics behaviour).after (opening visit ()) 87).any isOver = true := by
    decide +kernel
  obtain ⟨m, hm, hcheck⟩ := (Option.any_eq_true _ _).mp hover
  unfold isOver at hcheck
  split at hcheck
  · rename_i β a w
    simp only [Bool.and_eq_true] at hcheck
    obtain ⟨-, -, tag, htag⟩ := hooks_fire_once (c := ()) abides_behaviour abides_visit ⟨0⟩
    refine ⟨_, tag, hm, fun φ => ?_⟩
    obtain ⟨hooks, hset, -, hall⟩ := htag φ 87 _ hm
    rw [hall β a w rfl]
    have hroused : w.state.roused φ ⟨0⟩ = true := by
      cases φ with
      | mounted => exact hcheck.1
      | unmounted => exact hcheck.2
    exact number_of_setGoing hm hroused hset
  · cases hcheck

end Visitor

/-! ### Hooks out of order -/

namespace Passerby

/-- As a hook, the code notes whether the instance is mounted. As a method, it unmounts it. -/
def behaviour : Behaviour .single where
  invoke _ occasion :=
    match occasion with
    | .hook i => instance? i >>= fun x =>
      .step (.log [.note (if (x.bind (·.target)).isSome then "in" else "out")]) fun _ =>
        .done (.ok .undefined)
    | .method _ _ => unmount ⟨0⟩ >>= fun _ => .done (.ok (.text ""))
    | _ => .done (.ok .undefined)
  task t := nomatch t

def parting : Definition single.Body where
  name := "parting"
  source := .routine (.fixed "Ann")
  unmounted := [()]

def passBy : View .single Unit :=
  construct parting {} >>= keep >>= fun i => unmount i >>= .done

/-- A card with a hook for being mounted, which is removed while it is rendered. -/
def fleeting : Definition single.Body where
  name := "fleeting"
  source := .routine ⟨[.echo (.call (.name "leave") [])]⟩
  methods := .ofList [("leave", ())]
  mounted := [()]

def lookIn : View .single Unit :=
  construct fleeting {} >>= keep >>= fun i => newTarget "#door" >>= fun t =>
    mountTarget i t >>= .done

lemma abides_behaviour : behaviour.Abides := by
  refine ⟨fun _ occasion => ?_, nofun⟩
  cases occasion with
  | hook i => exact .step trivial fun _ => .step trivial fun _ => .done _
  | method data args => exact .unmount ⟨0⟩ fun _ => .done _
  | _ => exact .done _

lemma abides_lookIn : lookIn.Abides :=
  .create fleeting {} fun i => .newTarget "#door" fun t => .mountTarget i t fun _ => .done ()

/-- A card that has never been mounted runs its hook for being unmounted when it is unmounted. And a
card that is unmounted while it is rendered runs its hook for being mounted after that, when it is
not mounted. -/
theorem hooks_out_of_order :
    ∃ w w', passBy.run ((View.semantics behaviour).caller 3) { state := { client := () } } =
        some ((), w) ∧
      w.log = #[.note "out"] ∧ w.state.roused .unmounted ⟨0⟩ = true ∧
      w.state.roused .mounted ⟨0⟩ = false ∧
      lookIn.run ((semantics behaviour).caller 5) { state := { client := () } } =
        some ((), w') ∧
      w'.log = #[.note "out"] ∧ w'.state.roused .mounted ⟨0⟩ = true := by
  have hpassed : (passBy.run ((semantics behaviour).caller 3)
      { state := { client := () } }).any (fun r => decide (r.2.log = #[.note "out"]) &&
        r.2.state.roused .unmounted ⟨0⟩ && !r.2.state.roused .mounted ⟨0⟩) = true := by
    decide +kernel
  have hlooked : (lookIn.run ((semantics behaviour).caller 5)
      { state := { client := () } }).any (fun r => decide (r.2.log = #[.note "out"]) &&
        r.2.state.roused .mounted ⟨0⟩) = true := by
    decide +kernel
  simp only [Option.any_eq_true, Bool.and_eq_true, decide_eq_true_eq, Bool.not_eq_true'] at hpassed
  simp only [Option.any_eq_true, Bool.and_eq_true, decide_eq_true_eq] at hlooked
  obtain ⟨⟨⟨⟩, w⟩, hpassed, ⟨hlog, hparted⟩, hnever⟩ := hpassed
  obtain ⟨⟨⟨⟩, w'⟩, hlooked, hlog', hgreeted⟩ := hlooked
  exact ⟨w, w', hpassed, hlog, hparted, hnever, hlooked, hlog', hgreeted⟩

/-- What is checked of the moment at which a hook is run. -/
def greeted (m : Moment single.signature) : Bool :=
  match m.hook? with
  | some (⟨0⟩, ()) => m.world.state.targetOf ⟨0⟩ == none
  | _ => false

/-- The hook that the card runs is for being mounted. It has been mounted before, but not since it
was unmounted last. -/
theorem hooks_run_whether_mounted_passerby :
    ∃ tag m, View.Tells behaviour (View.opening lookIn ()) tag ∧
      (View.semantics behaviour).after (View.opening lookIn ()) 45 = some m ∧
      m.hook? = some (⟨0⟩, ()) ∧ tag 45 = .mounted ∧
      View.WasMounted behaviour (View.opening lookIn ()) 45 ⟨0⟩ ∧
      ¬ ∃ l t, l < 45 ∧ View.MountsOn behaviour (View.opening lookIn ()) ⟨0⟩ t l ∧
        ∀ j, l < j → j < 45 → ¬ View.Leaves behaviour (View.opening lookIn ()) ⟨0⟩ j := by
  have hcheck : ((semantics behaviour).after (opening lookIn ()) 45).any greeted =
      true := by decide +kernel
  have hnone : (semantics behaviour).passes
      (fun m => (m.world.state.hooksFor .unmounted ⟨0⟩).isEmpty) (opening lookIn ()) 45 =
        true := by decide +kernel
  obtain ⟨m, hm, hat⟩ := (Option.any_eq_true _ _).mp hcheck
  rw [greeted] at hat
  split at hat
  · rename_i hhook
    obtain ⟨tag, htag⟩ := exists_tells (c := ()) abides_behaviour abides_lookIn
    obtain ⟨⟨l, m', hl, -, hm', hmem⟩, -, hmounted⟩ :=
      hooks_run_whether_mounted abides_behaviour abides_lookIn htag hm hhook
    have hphase : tag 45 = .mounted := by
      cases hphase : tag 45 with
      | mounted => rfl
      | unmounted =>
        have hempty := check_of_passes hnone hl.le hm'
        rw [hphase, isEmpty_iff.mp hempty] at hmem
        cases hmem
    obtain ⟨hwas, hiff⟩ := hmounted hphase
    refine ⟨tag, m, htag, hm, hhook, hphase, hwas, fun hmounts => ?_⟩
    have hin := hiff.mpr hmounts
    rw [beq_iff_eq.mp hat] at hin
    cases hin
  · cases hat

end Passerby

end LiveMarkup
