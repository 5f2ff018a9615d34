import LiveMarkup.Proofs.Dependencies

/-!
# Beside a mounted instance

What the application may do while an instance is mounted, as a conduct: anything but meddle with
the instance, its target and its effect, or with what is registered. States in which the names that
anybody can reach are known stay so, and from state to state the mounted instance and its target
remain what they are.

Keeping another instance up to date, clicking, typing into a field and committing to a store are
within this conduct, provided that the code of the application is.
-/

namespace LiveMarkup

open Array ViewState Twins

variable {T : Terms C}
variable {s : ViewState C} {x : C.Instance} {M : Mounting}

/-- A mounted instance, the target that shows it, and the effect that keeps it up to date. -/
structure Mounting where
  self : InstanceId
  target : TargetId
  effect : EffectId

/-! ## Known code and data -/

lemma Twins.same_le (T : Terms C) (hK : K ⊆ K') : (same T K).Le (same T K') :=
  ⟨fun h => ⟨hK h.1, h.2⟩, subset_rfl⟩

def Invocation.Known (K : Set Ref) : Invocation → Prop
  | .function args => ∀ v ∈ args, v.Known K
  | .method data args => .object data ∈ K ∧ ∀ v ∈ args, v.Known K
  | .mutation state payload => .object state ∈ K ∧ payload.Known K
  | .factory | .hook _ | .effect => True

lemma Invocation.Known.mono {o : Invocation} (h : o.Known K) (hK : K ⊆ K') : o.Known K' := by
  cases o with
  | function args => exact fun v hv => (h v hv).mono hK
  | method data args => exact ⟨hK h.1, fun v hv => (h.2 v hv).mono hK⟩
  | mutation state payload => exact ⟨hK h.1, h.2.mono hK⟩
  | factory | hook | effect => trivial

def Handler.Known (K : Set Ref) : Handler → Prop
  | .click _ _ => True
  | .model data _ _ => .object data ∈ K

lemma Handler.Known.mono {h : Handler} (hh : h.Known K) (hK : K ⊆ K') : h.Known K' := by
  cases h with
  | click => trivial
  | model => exact hK hh

abbrev Instance.code (x : C.Instance) : Code C :=
  .render x.routine { data := x.data, globals := x.globals } (.live x.data x.sections)

/-- All that an instance and its methods mention is known. -/
structure Instance.Known (T : Terms C) (K : Set Ref) (x : C.Instance) : Prop where
  rel : x.Rel (same T K) x
  methods : ∀ e ∈ x.definition.methods.entries, (same T K).Fixes e.2

lemma Instance.Known.mono (h : x.Known T K) (hK : K ⊆ K') : x.Known T K' := by
  have hle := same_le T hK
  refine ⟨⟨h.rel.routine, h.rel.loopFree, hle.rel h.rel.data, ?_, ?_⟩, ?_⟩
  · exact h.rel.globals.imp fun _ _ => hle.value
  · exact h.rel.sections.imp fun _ _ hf => hf.mono hle
  · exact fun e he => (h.methods e he).mono hle

lemma Instance.Known.code_rel (h : x.Known T K) : Code.Rel (same T K) x.code x.code := by
  have hscope : Scope.Rel (same T K) { data := x.data, globals := x.globals }
      { data := x.data, globals := x.globals } :=
    ⟨h.rel.data, h.rel.globals, .nil, fun _ hl => by cases hl⟩
  exact .render h.rel.loopFree hscope (.live h.rel.data (fragments_rel_iff.mpr h.rel.sections))

/-! ## Orderly states -/

/-- An instance that mentions known names only. Unless it is the mounted one, it has nothing to do
with the target and the effect of that; and the mounted one is not let go of. -/
structure Mounting.Minds (M : Mounting) (T : Terms C) (K : Set Ref) (j : InstanceId)
    (x : C.Instance) : Prop where
  known : x.Known T K
  target : x.target = some M.target → j = M.self
  effect : x.mountEffect = some M.effect → j = M.self
  alive : j = M.self → x.released = false

lemma Mounting.Minds.mono (h : M.Minds T K j x) (hK : K ⊆ K') : M.Minds T K' j x :=
  { h with known := h.known.mono hK }

/-- A state in which all that anybody can reach is known. -/
structure Mounting.Orderly (M : Mounting) (T : Terms C) (K : Set Ref) (s : ViewState C) :
    Prop where
  registered : (same T K).Open
  rel : ViewState.Rel (same T K) s s
  functions : ∀ f, .function f ∈ K → f.index < s.functions.size
  stores : ∀ id, .store id ∈ K → id.index < s.stores.size
  instances : ∀ {j : InstanceId} {x}, s.instances[j.index]? = some x → M.Minds T K j x
  handlers : ∀ {t : TargetId} {x}, s.targets[t.index]? = some x → ∀ h ∈ x.handlers, h.2.Known K
  hooks : ∀ h ∈ s.hookSets, ∀ b, b ∈ h.mounted ∨ b ∈ h.unmounted → (same T K).Fixes b
  hookNames : ∀ b ∈ T.hooks, (same T K).Fixes b

lemma Mounting.Orderly.mono (h : M.Orderly T K s) (hK : K ⊆ K')
    (hnew : ∀ a ∈ K', a ∈ K ∨ a.InHeap) : M.Orderly T K' s := by
  have hle := same_le T hK
  have hfunction : ∀ {f}, .function f ∈ K' → .function f ∈ K := by
    intro f hf
    exact (hnew _ hf).resolve_right fun hno => hno
  have hstore : ∀ {id}, .store id ∈ K' → .store id ∈ K := by
    intro id hid
    exact (hnew _ hid).resolve_right fun hno => hno
  refine
    { registered := h.registered.mono hle trivial
      rel := ?_
      functions := fun f hf => h.functions f (hfunction hf)
      stores := fun id hid => h.stores id (hstore hid)
      instances := fun hx => (h.instances hx).mono hK
      handlers := fun hx e he => (h.handlers hx e he).mono hK
      hooks := fun x hx b hb => (h.hooks x hx b hb).mono hle
      hookNames := fun b hb => (h.hookNames b hb).mono hle }
  refine ⟨?_, ?_, ?_, h.rel.catalog, h.rel.settings, h.rel.pushed, h.rel.compiled⟩
  · rintro f _ ⟨hf, ⟨⟩⟩
    have hcode := h.rel.functions (f := f) ⟨hfunction hf, rfl⟩
    exact optionRel_imp hcode fun _ _ hc => hc.mono hle
  · rintro f _ ⟨hf, ⟨⟩⟩ k
    exact Iff.rfl
  · rintro id _ ⟨hid, ⟨⟩⟩
    have hsame : (same T K).rel (.store id) (.store id) := ⟨hstore hid, rfl⟩
    exact optionRel_imp (h.rel.stores hsame) fun _ _ hx => hx.mono hle

/-! ## From state to state -/

/-- From one state to a later one, what was registered or made is still there. -/
structure ViewState.Later (s s' : ViewState C) : Prop where
  functions : ∀ k < s.functions.size, s'.functions[k]? = s.functions[k]?
  moreFunctions : s.functions.size ≤ s'.functions.size
  stores : ∀ k < s.stores.size, s'.stores[k]? = s.stores[k]?
  catalog : s'.catalog = s.catalog
  settings : s'.settings = s.settings

lemma ViewState.Later.refl (s : ViewState C) : s.Later s :=
  ⟨fun _ _ => rfl, le_rfl, fun _ _ => rfl, rfl, rfl⟩

lemma ViewState.Later.trans {s1 s2 : ViewState C} (h : s.Later s1) (h' : s1.Later s2) :
    s.Later s2 where
  functions k hk := (h'.functions k (hk.trans_le h.moreFunctions)).trans (h.functions k hk)
  moreFunctions := h.moreFunctions.trans h'.moreFunctions
  stores k hk := by
    have hk1 : k < s1.stores.size := by
      by_contra hge
      have hnone := h.stores k hk
      rw [getElem?_eq_none (Nat.le_of_not_lt hge)] at hnone
      simp [hk] at hnone
    exact (h'.stores k hk1).trans (h.stores k hk)
  catalog := h'.catalog.trans h.catalog
  settings := h'.settings.trans h.settings

lemma ViewState.Keeps.later (h : Keeps T s s') : s.Later s' where
  functions := h.functions
  moreFunctions := h.more
  stores k _ := by rw [h.stores]
  catalog := h.catalog
  settings := h.settings

/-- A mounted instance stays mounted as it is. -/
structure Instance.Stays (x y : C.Instance) : Prop where
  code : y.code = x.code
  target : y.target = x.target
  mountEffect : y.mountEffect = x.mountEffect ∨ y.mountEffect = none
  mounted : x.mounted = true → y.mounted = true

lemma Instance.Stays.refl (x : C.Instance) : x.Stays x := ⟨rfl, rfl, .inl rfl, id⟩

/-- Besides, the mounted instance and its target are what they were. -/
structure Mounting.Leads (M : Mounting) (s s' : ViewState C) : Prop extends s.Later s' where
  self : ∀ {x}, s.instances[M.self.index]? = some x →
    ∃ x', s'.instances[M.self.index]? = some x' ∧ x.Stays x'
  target : s'.targets[M.target.index]? = s.targets[M.target.index]?

namespace Mounting.Leads

lemma refl (M : Mounting) (s : ViewState C) : M.Leads s s where
  toLater := .refl s
  self hx := ⟨_, hx, .refl _⟩
  target := rfl

lemma of_keeps (h : Keeps T s s1) : M.Leads s s1 where
  toLater := h.later
  self hx := ⟨_, by rw [h.instances, hx], .refl _⟩
  target := by rw [h.targets]

end Mounting.Leads

/-- The functions and stores that are in the second state only. -/
def ViewState.born (s s' : ViewState C) : Set Ref :=
  {a | (∃ k, s.functions.size ≤ k ∧ k < s'.functions.size ∧ a = .function ⟨k⟩) ∨
    ∃ k, s.stores.size ≤ k ∧ k < s'.stores.size ∧ a = .store ⟨k⟩}

lemma ViewState.born_eq_empty (hf : s'.functions = s.functions)
    (hs : s'.stores = s.stores) : s.born s' = ∅ := by
  refine Set.eq_empty_of_forall_notMem ?_
  rintro a (⟨k, hle, hlt, -⟩ | ⟨k, hle, hlt, -⟩)
  · rw [hf] at hlt
    omega
  · rw [hs] at hlt
    omega

/-- No hooks are registered with any instance. -/
def ViewState.Hookless (s : ViewState C) : Prop :=
  ∀ h ∈ s.hookSets, ∀ b, ¬ (b ∈ h.mounted ∨ b ∈ h.unmounted)

lemma ViewState.Keeps.hookless (h : Keeps T s s') (hT : T.hooks = ∅)
    (hs : s.Hookless) : s'.Hookless := by
  intro x hx b hb
  rcases h.hooks x hx b hb with hmem | ⟨x0, hx0, hb0⟩
  · rw [hT] at hmem
    exact hmem
  · exact hs x0 hx0 b hb0

/-! ## The conduct -/

/-- The application may do what it likes as long as everything stays orderly, the mounted instance
is left alone, what is registered stays registered, and an application without hooks gets none.
Nobody but its effect runs the code that brings the mounted instance up to date, nobody ends that
effect, and nobody sets a limit that keeps effects from running once inside themselves. -/
def Mounting.conduct (M : Mounting) (T : Terms C) : Conduct C.signature where
  code K
    | .invoke b o => (same T K).Fixes b ∧ o.Known K
    | .render r scope owner =>
      Code.Rel (same T K) (.render r scope owner) (.render r scope owner)
    | .refresh _ => True
    | .task _ => False
  reply K
    | .invoke _ _, r => ∀ v, r = .ok v → v.Known K
    | _, _ => True
  state K s := M.Orderly T K s
  permits
    | .call (.refresh j) | .within _ (.refresh j) | .spawn (.refresh j) => j ≠ M.self
    | .dispose e => e ≠ M.effect
    | .clearDependencies _ => False
    | .setMaxDepth n => 2 ≤ n
    | _ => True
  keeps K s s' := M.Leads s s' ∧ M.Orderly T (K ∪ s.born s') s' ∧
    (T.hooks = ∅ → s.Hookless → s'.Hookless)
  born := born
  code_mono {K K' c} hK hc := by
    have hle := same_le T hK
    cases c with
    | invoke b o => exact ⟨hc.1.mono hle, hc.2.mono hK⟩
    | render r scope owner => exact Code.Rel.mono hc hle
    | refresh j => trivial
    | task t => exact hc
  reply_mono {K K' c r} hK hr := by
    cases c with
    | invoke b o => exact fun v hv => (hr v hv).mono hK
    | _ => trivial
  state_insert {K s a} hs ha := by
    refine hs.mono (Set.subset_insert a K) ?_
    rintro b (rfl | hb)
    · exact .inr ha
    · exact .inl hb
  born_notInHeap {s s' a} ha := by
    rcases ha with ⟨k, -, -, rfl⟩ | ⟨k, -, -, rfl⟩
    · exact id
    · exact id
  state_keeps _ hkeeps := hkeeps.2.1

/-! ## Single steps -/

/-- The same instance, a little later. -/
structure Instance.Onward (x y : C.Instance) : Prop where
  definition : y.definition = x.definition
  data : y.data = x.data
  globals : y.globals = x.globals
  routine : y.routine = x.routine
  sections : y.sections = x.sections
  target : y.target = x.target
  mountEffect : y.mountEffect = x.mountEffect ∨ y.mountEffect = none
  released : y.released = x.released
  mounted : x.mounted = true → y.mounted = true

lemma Instance.Onward.stays (h : x.Onward y) : x.Stays y where
  code := by rw [Instance.code, Instance.code, h.routine, h.data, h.globals, h.sections]
  target := h.target
  mountEffect := h.mountEffect
  mounted := h.mounted

lemma Mounting.Minds.onward (hx : M.Minds T K j x) (h : x.Onward y) : M.Minds T K j y := by
  have hrel : y.Rel (same T K) y := by
    refine ⟨rfl, ?_, ?_, ?_, ?_⟩
    · rw [h.routine]
      exact hx.known.rel.loopFree
    · rw [h.data]
      exact hx.known.rel.data
    · rw [h.globals]
      exact hx.known.rel.globals
    · rw [h.sections]
      exact hx.known.rel.sections
  have hmethods : ∀ e ∈ y.definition.methods.entries, (same T K).Fixes e.2 := by
    rw [h.definition]
    exact hx.known.methods
  refine ⟨⟨hrel, hmethods⟩, ?_, ?_, ?_⟩
  · rw [h.target]
    exact hx.target
  · intro he
    rcases h.mountEffect with heq | hnone
    · exact hx.effect (heq ▸ he)
    · rw [hnone] at he
      cases he
  · rw [h.released]
    exact hx.alive

/-- A change of an orderly state that makes no functions and no stores. -/
structure Mounting.Tidy (M : Mounting) (T : Terms C) (K : Set Ref) (s s' : ViewState C) : Prop where
  leads : M.Leads s s'
  orderly : M.Orderly T K s'
  functions : s'.functions = s.functions
  stores : s'.stores = s.stores
  hookSets : s'.hookSets = s.hookSets

lemma Mounting.Tidy.keeps (h : M.Tidy T K s s') : (M.conduct T).keeps K s s' := by
  refine ⟨h.leads, ?_, ?_⟩
  · rw [born_eq_empty h.functions h.stores, Set.union_empty]
    exact h.orderly
  · intro _ hs
    rw [Hookless, h.hookSets]
    exact hs

namespace Mounting.Orderly

section

variable (hs : M.Orderly T K s)
include hs

lemma modifyInstance (j : InstanceId) (hf : ∀ x : C.Instance, x.Onward (f x)) :
    M.Tidy T K s { s with instances := s.instances.modify j.index f } := by
  have hget : ∀ {k : InstanceId} {y}, (s.instances.modify j.index f)[k.index]? = some y →
      ∃ x, s.instances[k.index]? = some x ∧ (y = x ∨ y = f x) := by
    intro k y hy
    rw [getElem?_modify] at hy
    split at hy
    · obtain ⟨x, hx, rfl⟩ := Option.map_eq_some_iff.mp hy
      exact ⟨x, hx, .inr rfl⟩
    · exact ⟨y, hy, .inl rfl⟩
  refine ⟨{ Leads.refl M s with self := ?_ },
    { hs with rel := { hs.rel with }, instances := ?_ }, rfl, rfl, rfl⟩
  · intro x hx
    by_cases hj : j.index = M.self.index
    · refine ⟨f x, ?_, (hf x).stays⟩
      rw [getElem?_modify, if_pos hj, hx]
      rfl
    · refine ⟨x, ?_, .refl x⟩
      rw [getElem?_modify, if_neg hj, hx]
  · intro k y hy
    obtain ⟨x, hx, rfl | rfl⟩ := hget hy
    · exact hs.instances hx
    · exact (hs.instances hx).onward (hf x)

lemma withTargets (t : TargetId) (hf : ∀ x, ∀ h ∈ (f x).handlers, h.2.Known K) :
    M.Orderly T K { s with targets := s.targets.modify t.index f } := by
  refine { hs with rel := { hs.rel with }, handlers := ?_ }
  intro u x hx
  replace hx : (s.targets.modify t.index f)[u.index]? = some x := hx
  rw [getElem?_modify] at hx
  split at hx
  · obtain ⟨x, hx, rfl⟩ := Option.map_eq_some_iff.mp hx
    exact hf x
  · exact hs.handlers hx

lemma modifyTarget (ht : t ≠ M.target) (hf : ∀ x, ∀ h ∈ (f x).handlers, h.2.Known K) :
    M.Tidy T K s { s with targets := s.targets.modify t.index f } := by
  refine ⟨{ Leads.refl M s with target := ?_ }, hs.withTargets t hf, rfl, rfl, rfl⟩
  have hne : t.index ≠ M.target.index := fun heq => ht (congrArg TargetId.mk heq)
  rw [getElem?_modify, if_neg hne]

lemma resetStacks : M.Tidy T K s { s with pushed := .empty } :=
  ⟨{ Leads.refl M s with }, { hs with rel := { hs.rel with pushed := rfl } }, rfl, rfl, rfl⟩

end

end Mounting.Orderly

/-! ## Programs of the view layer -/

namespace View

open Program

/-- A program that keeps to the conduct. -/
abbrev Minds {α : Type} (p : View C α) (M : Mounting) (T : Terms C) (K : Set Ref) : Prop :=
  p.Honest (M.conduct T) (fun _ _ => True) K

lemma honest_perform (op : C.Op) (hp : (M.conduct T).permits op)
    (hm : op.Mentions (M.conduct T) K) :
    (perform op).Honest (M.conduct T) (fun K r => op.Reveals (M.conduct T) K r) K :=
  .step hp hm fun _ _ _ hr => .done hr

lemma honest_get :
    (get : View C (ViewState C)).Honest (M.conduct T) (fun K s => M.Orderly T K s) K :=
  honest_perform .get trivial trivial

lemma honest_modify (hf : ∀ s, M.Orderly T K s → M.Tidy T K s (f s)) : (modify f).Minds M T K :=
  (honest_perform (.modify f) trivial fun s hs => (hf s hs).keeps).bind fun _ _ _ _ => .done trivial

lemma honest_report (e : Event) : Minds (report e : View C Unit) M T K :=
  honest_perform (.log [.event e]) trivial trivial

lemma honest_invoke (hb : (same T K).Fixes b) (ho : o.Known K) :
    (invoke b o).Honest (M.conduct T) (fun K r => ∀ v, r = .ok v → v.Known K) K :=
  honest_perform (.call (.invoke b o)) trivial ⟨hb, ho⟩

/-! ### Instances -/

lemma honest_instance? (j : InstanceId) :
    (instance? j : View C (Option C.Instance)).Honest (M.conduct T)
      (fun K x => ∀ y, x = some y → M.Minds T K j y) K :=
  honest_get.bind fun _ _ _ hs => .done fun _ hy => hs.instances hy

lemma honest_modifyInstance (j : InstanceId) (hf : ∀ x : C.Instance, x.Onward (f x)) :
    (modifyInstance j f).Minds M T K :=
  honest_modify fun _ hs => hs.modifyInstance j hf

lemma honest_endMountEffect (hj : j ≠ M.self) : (endMountEffect j : View C Unit).Minds M T K := by
  refine (honest_instance? j).bind fun x K1 _ hx => ?_
  have hmount : ∀ e, x.bind (·.mountEffect) = some e → e ≠ M.effect := by
    rintro e he rfl
    obtain ⟨y, hy, hey⟩ := Option.bind_eq_some_iff.mp he
    exact hj ((hx y hy).effect hey)
  cases hbind : x.bind (·.mountEffect) with
  | none =>
    exact .done trivial
  | some e =>
    refine (honest_modifyInstance j ?_).bind fun _ K2 _ _ =>
      honest_perform (.dispose e) (hmount e hbind) trivial
    exact fun x => ⟨rfl, rfl, rfl, rfl, rfl, rfl, .inr rfl, rfl, id⟩

lemma honest_retire (j : InstanceId) : (retire j : View C Unit).Minds M T K := by
  refine (honest_instance? j).bind fun x K1 _ hx => ?_
  split
  · split
    · exact .done trivial
    · rename_i x hdead
      refine honest_endMountEffect fun hj => hdead ?_
      simp [Instance.isAlive, (hx x rfl).alive hj]
  · exact .done trivial

lemma honest_during (j : InstanceId) {post : Set Ref → α → Prop}
    (hmono : ∀ {K K' a}, K ⊆ K' → post K a → post K' a)
    (hp : ∀ {K'}, K ⊆ K' → p.Honest (M.conduct T) post K') :
    (during j p).Honest (M.conduct T) post K := by
  refine (honest_modifyInstance j ?_).bind fun _ K1 hK1 _ => ?_
  · exact fun x => ⟨rfl, rfl, rfl, rfl, rfl, rfl, .inl rfl, rfl, id⟩
  refine (hp hK1).bind fun a K2 _ ha => ?_
  refine (honest_modifyInstance j ?_).bind fun _ K3 hK3 _ => ?_
  · exact fun x => ⟨rfl, rfl, rfl, rfl, rfl, rfl, .inl rfl, rfl, id⟩
  exact (honest_retire j).bind fun _ K4 hK4 _ => .done (hmono (hK3.trans hK4) ha)

lemma honest_callMethod (j : InstanceId) (name : String) (hargs : ∀ v ∈ args, v.Known K) :
    (callMethod j name args : View C _).Minds M T K := by
  refine (honest_instance? j).bind fun x K1 hK1 hx => ?_
  cases x with
  | none => exact .done trivial
  | some x =>
    have hknown := (hx x rfl).known
    dsimp only
    split
    · exact .done trivial
    · rename_i b hmethod
      have hb := hknown.methods (name, b) (mem_of_lookup hmethod)
      have ho : (Invocation.method x.data args).Known K1 :=
        ⟨hknown.rel.data.1, fun v hv => (hargs v hv).mono hK1⟩
      refine (honest_invoke hb ho).bind fun r K2 _ _ => ?_
      cases r <;> exact .done trivial

/-! ### Interactions -/

lemma honest_follow (ho : .object o ∈ K) (names : List String) :
    (follow o names : View C _).Honest (M.conduct T)
      (fun K r => ∀ o', r = some o' → .object o' ∈ K) K := by
  induction names generalizing o K with
  | nil =>
    refine .done ?_
    rintro o' ⟨⟩
    exact ho
  | cons name rest ih =>
    refine (honest_perform (.peek (.property o name)) trivial
      (Query.known_property ho name)).bind fun v K1 _ hv => ?_
    have hnone : (done none : View C (Option ObjectId)).Honest (M.conduct T)
        (fun K r => ∀ o', r = some o' → .object o' ∈ K) K1 := by
      refine .done ?_
      rintro o' ⟨⟩
    cases v with
    | none => exact hnone
    | some v =>
      cases v with
      | object next =>
        cases hv with
        | some hx => exact ih (Value.rel_same.mp hx).2
      | _ => exact hnone

lemma honest_writePath (hdata : .object data ∈ K) (path : String) (hv : v.Known K) :
    (writePath data path v : View C Unit).Minds M T K := by
  refine (honest_follow hdata _).bind fun o K1 hK1 ho => ?_
  cases o with
  | none => exact honest_report _
  | some o =>
    have hmentions : (Op.write (.set o ((pathNames path).getLastD "") v) : C.Op).Mentions
        (M.conduct T) K1 := by
      refine ⟨ho o rfl, ?_⟩
      rintro u ⟨⟩
      exact hv.mono hK1
    exact (honest_perform (.write (.set o _ v)) trivial hmentions).bind fun _ _ _ _ => .done trivial

lemma honest_handle (hh : h.Known K) {input : Value} (hinput : input.Known K) :
    (handle h input : View C Unit).Minds M T K := by
  cases h with
  | click j method =>
    refine (honest_instance? j).bind fun x K1 _ _ => ?_
    split
    · split
      · refine honest_during j (fun _ _ => trivial) fun {K2} _ => ?_
        refine (honest_callMethod j method (by simp)).bind fun r K3 _ _ => ?_
        split
        · exact .done trivial
        all_goals exact honest_report _
      · exact .done trivial
    · exact .done trivial
  | model data path checkbox =>
    refine honest_writePath hh path ?_
    split
    · trivial
    · exact hinput

lemma honest_dispatch (t : TargetId) (kind : BindingKind) (ordinal : Nat) (hinput : input.Known K) :
    (dispatch t kind ordinal input : View C _).Minds M T K := by
  refine honest_get.bind fun s K1 hK1 hs => ?_
  dsimp only
  cases hfind : (s.targets[t.index]?.getD {}).handlers.find?
      (fun h => h.1.kind == kind && h.1.ordinal == ordinal) with
  | none => exact .done trivial
  | some h =>
    have hmem := List.mem_of_find?_eq_some hfind
    have hknown : h.2.Known K1 := by
      cases ht : s.targets[t.index]? with
      | none =>
        rw [ht] at hmem
        cases hmem
      | some x =>
        rw [ht] at hmem
        exact hs.handlers ht h hmem
    exact (honest_handle hknown (hinput.mono hK1)).bind fun _ _ _ _ => .done trivial

lemma honest_commit {id : StoreId} (hid : .store id ∈ K) (mutation : String)
    (hpayload : payload.Known K) : (commit id mutation payload : View C _).Minds M T K := by
  refine honest_get.bind fun s K1 hK1 hs => ?_
  have hsame : (same T K1).rel (.store id) (.store id) := ⟨hK1 hid, rfl⟩
  have hstore := hs.rel.stores hsame
  cases hget : s.stores[id.index]? with
  | none => exact .done trivial
  | some store =>
    rw [hget] at hstore
    cases hstore with
    | some hstore =>
      dsimp only
      split
      · exact (honest_report _).bind fun _ _ _ _ => .done trivial
      · rename_i b hmutation
        have hb := hstore.fixes (mutation, b) (mem_of_lookup hmutation)
        have ho : (Invocation.mutation store.state payload).Known K1 :=
          ⟨hstore.state.1, hpayload.mono hK1⟩
        refine (honest_invoke hb ho).bind fun r K2 _ _ => ?_
        cases r <;> exact .done trivial

/-! ### Keeping another instance up to date -/

lemma honest_settle (r : Except RenderError String) :
    (settle .render .renderFailed r : View C Rendered).Minds M T K := by
  cases r with
  | ok html => exact .done trivial
  | error e =>
    refine (honest_report _).bind fun _ _ _ _ => ?_
    exact honest_get.bind fun _ _ _ _ => .done trivial

lemma handlerOf_known (j : InstanceId) (hdata : .object data ∈ K)
    (b : Binding) : (handlerOf j data b).Known K := by
  rw [handlerOf]
  split
  · trivial
  · exact hdata

lemma honest_writeTarget (j : InstanceId) (hdata : .object data ∈ K) (html : String)
    (ht : t ≠ M.target) : (writeTarget j data html t : View C Unit).Minds M T K := by
  refine honest_modify fun s hs => hs.modifyTarget ht ?_
  intro x h hh
  obtain ⟨b, -, rfl⟩ := List.mem_map.mp hh
  exact handlerOf_known j hdata b

lemma honest_renderTop (hj : j ≠ M.self) : (renderTop j : View C Rendered).Minds M T K := by
  refine (honest_modify fun s hs => hs.resetStacks).bind fun _ K1 _ _ => ?_
  refine (honest_instance? j).bind fun x K2 _ hx => ?_
  cases x with
  | none => exact .done trivial
  | some x =>
    have hknown := (hx x rfl).known
    refine (honest_perform (.call x.code) trivial hknown.code_rel).bind fun r K3 hK3 _ => ?_
    refine (honest_settle r).bind fun rendered K4 hK4 _ => ?_
    refine (honest_instance? j).bind fun now K5 hK5 hnow => ?_
    cases htarget : now.bind (·.target) with
    | none => exact .done trivial
    | some t =>
      have ht : t ≠ M.target := by
        rintro rfl
        obtain ⟨y, hy, hty⟩ := Option.bind_eq_some_iff.mp htarget
        exact hj ((hnow y hy).target hty)
      have hdata : .object x.data ∈ K5 := hK5 (hK4 (hK3 hknown.rel.data.1))
      exact (honest_writeTarget j hdata rendered.html ht).bind fun _ _ _ _ => .done trivial

lemma honest_runHooks (j : InstanceId) (hbs : ∀ b ∈ bs, (same T K).Fixes b) :
    (runHooks j bs).Minds M T K := by
  induction bs generalizing K with
  | nil => exact .done trivial
  | cons b rest ih =>
    have hb := hbs b List.mem_cons_self
    refine (honest_perform (.within none (.invoke b (.hook j))) trivial ⟨hb, trivial⟩).bind
      fun _ K1 hK1 _ => ih ?_
    exact fun b' hb' => (hbs b' (List.mem_cons_of_mem _ hb')).mono (same_le T hK1)

lemma honest_hooksOf (id : HookSetId) : (hooksOf id : View C (HookSet C.Body)).Honest (M.conduct T)
      (fun K h => ∀ b ∈ h.mounted, (same T K).Fixes b) K := by
  refine honest_get.bind fun s K1 _ hs => .done ?_
  intro b hb
  cases hk : s.hookSets[id.index]? with
  | none =>
    rw [hk] at hb
    cases hb
  | some h =>
    rw [hk] at hb
    exact hs.hooks h (mem_of_getElem? hk) b (.inl hb)

lemma honest_afterRender (j : InstanceId) (r : Rendered) :
    (afterRender j r : View C Unit).Minds M T K := by
  cases r with
  | diagnostic d => exact .done trivial
  | markup html =>
    refine (honest_instance? j).bind fun x K1 _ _ => ?_
    split
    · split
      · exact .done trivial
      · refine (honest_modifyInstance j ?_).bind fun _ K2 _ _ => ?_
        · exact fun x => ⟨rfl, rfl, rfl, rfl, rfl, rfl, .inl rfl, rfl, fun _ => rfl⟩
        · exact (honest_hooksOf _).bind fun h K3 _ hh => honest_runHooks j hh
    · exact .done trivial

lemma honest_refresh (hj : j ≠ M.self) : (refresh j : View C Unit).Minds M T K := by
  refine (honest_instance? j).bind fun x K1 _ _ => ?_
  split
  · split
    · refine honest_during j (fun _ _ => trivial) fun {K2} _ => ?_
      exact (honest_renderTop hj).bind fun r K3 _ _ => honest_afterRender j r
    · exact .done trivial
  · exact .done trivial

end View

end LiveMarkup
