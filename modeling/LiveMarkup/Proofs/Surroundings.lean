import LiveMarkup.Proofs.Twins

/-!
# The surroundings of templates are alike

Functions, host objects, child components, layouts, includes and previews: whatever a template can
ask for does the same in two runs, up to names, provided that what is registered means the same to
both. Child components need data that is written to before anybody has looked at it; everything else
only looks, builds and calls.
-/

namespace LiveMarkup

open Array

open ViewState (Change Keeps)

variable {T : Terms C} {τ : Twins T}

/-! ## What is registered -/

def Source.compiled : Source → Routine
  | .template text _ => View.compileTemplate text
  | .routine r => r

/-- What is registered keeps to the terms, and no two templates share a cell. -/
structure Terms.Lawful (T : Terms C) : Prop where
  loopFree : ∀ {d}, T.catalog.Has d → d.source.compiled.LoopFree
  cells : ∀ {d d' text text' cell}, T.catalog.Has d → T.catalog.Has d' →
    d.source = .template text cell → d'.source = .template text' cell → text = text'
  factory : ∀ {d b}, T.catalog.Has d → d.factory = some b → b ∈ T.makers
  hooks : ∀ {d b}, T.catalog.Has d → b ∈ d.mounted ∨ b ∈ d.unmounted → b ∈ T.hooks

/-- Runs that may call code, and to which everything registered means the same. -/
structure Twins.Open (τ : Twins T) : Prop where
  lawful : T.Lawful
  calls : τ.calls
  methods : ∀ {d}, T.catalog.Has d → ∀ e ∈ d.methods.entries, τ.Fixes e.2
  services : T.catalog.services.Rel τ.value T.catalog.services
  store : ∀ {id}, T.catalog.store = some id → τ.rel (.store id) (.store id)

/-! ## Changes of the state -/

lemma ViewState.Keeps.refl (s : ViewState C) : Keeps T s s where
  functions _ _ := rfl
  more := le_rfl
  instances := rfl
  catalog := rfl
  stores := rfl
  settings := rfl
  targets := rfl
  document := rfl
  client := rfl
  cells _ _ h := h
  hooks h hh _ hb := .inr ⟨h, hh, hb⟩

namespace ViewState.Change

lemma of_keeps (h : ViewState.Rel τ s s') (hk : Keeps T s x)
    (hk' : Keeps T s' x') (hf : x.functions = s.functions)
    (hf' : x'.functions = s'.functions) (hpushed : x'.pushed = x.pushed)
    (hcompiled : T.Compiled x ∧ T.Compiled x') : Change τ s s' x x' where
  rel := {
    functions := by
      rw [hf, hf']
      exact h.functions
    offset := by
      rw [hf, hf']
      exact h.offset
    stores := by
      rw [hk.stores, hk'.stores]
      exact h.stores
    catalog := ⟨hk.catalog.trans h.catalog.1, hk'.catalog.trans h.catalog.2⟩
    settings := by rw [hk.settings, hk'.settings, h.settings]
    pushed := hpushed
    compiled := hcompiled }
  keeps := hk
  keeps' := hk'
  added := by rw [hf, hf', Nat.add_comm]

lemma push (h : ViewState.Rel τ s s') (hcode : FunctionCode.Rel τ code code') :
    Change τ s s' { s with functions := s.functions.push code }
      { s' with functions := s'.functions.push code' } := by
  have hkeeps : ∀ (s : ViewState C) (code : FunctionCode C.Body),
      Keeps T s { s with functions := s.functions.push code } := by
    intro s code
    refine { Keeps.refl s with functions := ?_, more := by simp }
    intro i hi
    exact getElem?_push_lt hi |>.trans (getElem?_eq_getElem hi).symm
  refine ⟨{ h with functions := ?_, offset := ?_ }, hkeeps s code, hkeeps s' code', by simp; omega⟩
  · intro f f' hf
    have hoff := h.offset hf 0
    simp only [Nat.add_zero] at hoff
    simp only [getElem?_push]
    by_cases hi : f.index = s.functions.size
    · rw [if_pos hi, if_pos (hoff.mp hi)]
      exact .some hcode
    · rw [if_neg hi, if_neg fun h => hi (hoff.mpr h)]
      exact h.functions hf
  · intro f f' hf k
    have hoff := h.offset hf (k + 1)
    simp only [size_push]
    omega

end ViewState.Change

/-- Instances that render alike. -/
structure Instance.Rel (τ : Twins T) (x x' : C.Instance) : Prop where
  routine : x'.routine = x.routine
  loopFree : x.routine.LoopFree
  data : τ.rel (.object x.data) (.object x'.data)
  globals : x.globals.Rel τ.value x'.globals
  sections : x.sections.Rel (Fragment.Rel τ) x'.sections

namespace View

open Program

lemma alike_modify (h : ∀ s s', ViewState.Rel τ s s' → Change τ s s' (f s) (f' s')) :
    Alike τ (fun _ _ => True) (modify f) (modify f') :=
  (Alike.exchange h).bind fun _ _ _ => .pure trivial

lemma alike_newFunction (h : FunctionCode.Rel τ code code')
    (name : String) : Alike τ τ.value (newFunction code name) (newFunction code' name) := by
  refine (Alike.exchange fun s s' hs => Change.push hs h).bind ?_
  rintro s s' ⟨-, hnew⟩
  exact .pure (.function (hnew 0 (by simp)) name)

lemma alike_pushStack (name content : String) :
    Alike τ (fun _ _ => True) (pushStack name content) (pushStack name content) := by
  refine alike_modify fun s s' hs => ?_
  refine .of_keeps hs { Keeps.refl s with } { Keeps.refl s' with } rfl rfl ?_
    hs.compiled
  rw [hs.pushed]

lemma alike_render (hopen : τ.Open) (hfree : r.LoopFree) (hscope : Scope.Rel τ scope scope')
    (howner : Owner.Rel τ owner owner') :
    Alike τ (τ.likeness.Outcome RenderError.kind Eq) (render r scope owner)
      (render r scope' owner') := by
  refine τ.likeness.imp (Alike.call hopen.calls (.render hfree hscope howner)) ?_
  rintro r _ rfl
  cases r with
  | ok html => exact .ok rfl
  | error e => exact .fail e

lemma alike_renderFragment (hopen : τ.Open) (h : Fragment.Rel τ f f') :
    Alike τ (fun r r' => τ.likeness.Outcome RenderError.kind Eq r.outcome r'.outcome)
      (renderFragment f) (renderFragment f') := by
  cases h with
  | markup html => exact .pure (.ok rfl)
  | failure message => exact .pure (.fail _)
  | body hfree hscope howner =>
    refine (alike_render hopen (r := ⟨_⟩) hfree hscope howner).bind fun r r' hr => ?_
    cases hr with
    | ok h => exact .pure (.ok h)
    | error _ h => exact .pure (.error rfl fun hs => by rw [h hs])

lemma compiled_fill (hT : T.Lawful) (hd : T.catalog.Has d)
    (hsource : d.source = .template text cell) (hs : T.Compiled s) :
    T.Compiled { s with
      cells := s.cells.setIfInBounds cell.index (some (compileTemplate text)) } := by
  intro d' text' cell' r hd' hsource' hr
  rw [getElem?_setIfInBounds] at hr
  split at hr
  · rename_i hi
    obtain rfl : cell = cell' := by
      cases cell
      cases cell'
      exact congrArg CellId.mk hi
    obtain rfl := hT.cells hd hd' hsource hsource'
    split at hr
    · exact (Option.some.inj hr).symm
    · cases hr
  · exact hs hd' hsource' hr

lemma keeps_fill (hd : T.catalog.Has d) (hsource : d.source = .template text cell)
    (hs : T.Compiled s) :
    Keeps T s { s with
      cells := s.cells.setIfInBounds cell.index (some (compileTemplate text)) } := by
  refine { Keeps.refl s with cells := ?_ }
  intro c r hr
  rw [getElem?_setIfInBounds]
  split
  · rename_i hi
    subst hi
    have hlt : cell.index < s.cells.size := by
      by_contra hge
      rw [getElem?_eq_none (Nat.le_of_not_lt hge)] at hr
      cases hr
    rw [if_pos hlt, hs hd hsource hr]
    rfl
  · exact hr

lemma alike_routineOf (hopen : τ.Open) (hd : T.catalog.Has d) :
    Alike τ (fun r r' => r = d.source.compiled ∧ r' = d.source.compiled) (routineOf d)
      (routineOf d) := by
  unfold routineOf
  cases hsource : d.source with
  | routine r => exact .pure ⟨rfl, rfl⟩
  | template text cell =>
    refine Alike.get.bind fun s s' hs => ?_
    have hcompiled : ∀ s : ViewState C, T.Compiled s →
        s.cells[cell.index]?.join.getD (compileTemplate text) = compileTemplate text := by
      intro s hs
      cases hr : s.cells[cell.index]?.join with
      | none => rfl
      | some r => exact hs hd hsource hr
    dsimp only
    rw [hcompiled s hs.compiled.1, hcompiled s' hs.compiled.2]
    refine (Alike.log _ _).bind fun _ _ _ => ?_
    refine (alike_modify fun s s' hs => ?_).bind fun _ _ _ => .pure ⟨rfl, rfl⟩
    exact .of_keeps hs (keeps_fill hd hsource hs.compiled.1)
      (keeps_fill hd hsource hs.compiled.2) rfl rfl hs.pushed
      ⟨compiled_fill hopen.lawful hd hsource hs.compiled.1,
        compiled_fill hopen.lawful hd hsource hs.compiled.2⟩

lemma alike_newHookSet : Alike τ (fun _ _ => True) newHookSet newHookSet := by
  have hkeeps : ∀ s : ViewState C,
      Keeps T s { s with hookSets := s.hookSets.push {} } := by
    intro s
    refine { Keeps.refl (T := T) s with hooks := ?_ }
    intro h hh b hb
    rcases mem_push.mp hh with hold | rfl
    · exact .inr ⟨h, hold, hb⟩
    · simp at hb
  refine (Alike.exchange fun s s' hs => ?_).bind fun _ _ _ => .pure trivial
  exact .of_keeps hs (hkeeps s) (hkeeps s') rfl rfl hs.pushed hs.compiled

lemma alike_setAmbient (id id' : Option HookSetId) :
    Alike τ (fun _ _ => True) (setAmbient id) (setAmbient id') := by
  refine (Alike.exchange fun s s' hs => ?_).bind fun _ _ _ => .pure trivial
  exact .of_keeps hs { Keeps.refl s with } { Keeps.refl s' with } rfl rfl
    hs.pushed hs.compiled

lemma keeps_addHooks (id : HookSetId) (hhooks : ∀ b, b ∈ mounted ∨ b ∈ unmounted → b ∈ T.hooks)
    (s : ViewState C) : Keeps T s (addHooks id mounted unmounted s) := by
  refine { Keeps.refl (T := T) s with hooks := ?_ }
  intro h hh b hb
  obtain ⟨i, hi⟩ := mem_iff_getElem?.mp hh
  rw [addHooks, getElem?_modify] at hi
  split at hi
  · obtain ⟨h0, hold, rfl⟩ := Option.map_eq_some_iff.mp hi
    have hmem : h0 ∈ s.hookSets := mem_iff_getElem?.mpr ⟨i, hold⟩
    simp only [List.mem_append] at hb
    rcases hb with (hb | hb) | (hb | hb)
    · exact .inr ⟨h0, hmem, .inl hb⟩
    · exact .inl (hhooks b (.inl hb))
    · exact .inr ⟨h0, hmem, .inr hb⟩
    · exact .inl (hhooks b (.inr hb))
  · exact .inr ⟨h, mem_iff_getElem?.mpr ⟨i, hi⟩, hb⟩

lemma alike_addHooks (id id' : HookSetId)
    (hhooks : ∀ b, b ∈ mounted ∨ b ∈ unmounted → b ∈ T.hooks) :
    Alike τ (fun _ _ => True) (modify (addHooks id mounted unmounted))
      (modify (addHooks id' mounted unmounted)) :=
  alike_modify fun s s' hs => .of_keeps hs (keeps_addHooks id hhooks s)
    (keeps_addHooks id' hhooks s') rfl rfl hs.pushed hs.compiled

/-! ## Data and names -/

lemma twin_createData (hopen : τ.Open) (hd : T.catalog.Has d) (V : Set ObjectId) :
    Twin τ (fun V o o' => o ∈ V ∧ τ.rel (.object o) (.object o')) V (createData d)
      (createData d) := by
  have hnew : ∀ V, Twin τ (fun V o o' => o ∈ V ∧ τ.rel (.object o) (.object o')) V
      (newObject .empty : View C ObjectId) (newObject .empty) := by
    intro V
    refine .step (.newObject .empty) ?_
    rintro o o' _ ⟨ho, -, rfl⟩
    exact .done ⟨.inl rfl, ho⟩
  unfold createData
  cases hf : d.factory with
  | none => exact hnew V
  | some b =>
    refine .step (.factory hopen.calls (hopen.lawful.factory hd hf)) ?_
    rintro r r' _ ⟨hr, rfl⟩
    have hother : ∀ {v v' : Value} V, τ.value v v' →
        Twin τ (fun V o o' => o ∈ V ∧ τ.rel (.object o) (.object o')) V (do
            if !v.isNullish then report .dataNotObject
            newObject .empty : View C ObjectId)
          (do
            if !v'.isNullish then report .dataNotObject
            newObject .empty) := by
      intro v v' V hv
      rw [hv.isNullish]
      split
      · exact (Alike.report .dataNotObject V).bind fun V _ _ _ => hnew V
      · exact hnew V
    cases hr with
    | error e => exact hother _ .undefined
    | ok hv =>
      have hv' := hv
      cases hv with
      | object ho => exact .done ⟨rfl, ho⟩
      | _ => exact hother _ hv'

lemma twin_setAll {o o' : ObjectId} (ho : τ.rel (.object o) (.object o'))
    (hl : List.Forall₂ (EntryRel τ.value) l l') (hV : o ∈ V) :
    Twin τ (fun _ _ _ => True) V (setAll o l) (setAll o' l') := by
  induction hl using entries_induction with
  | nil => exact .done trivial
  | cons k hv _ ih =>
    refine .step (.write hV ho k hv) ?_
    rintro r r' _ rfl
    exact ih

end View

/-! ## The service of twins -/

namespace Twins.Open

open Program View

lemma applies (hopen : τ.Open) (hb : τ.Fixes b) {o o' : Invocation} (ho : Invocation.Rel τ o o') :
    τ.likeness.Applies (invoke b o) (invoke b o') :=
  τ.likeness.imp (Alike.call hopen.calls (.invoke hb ho)) fun _ _ => Twins.outcome_iff.mpr

/-- Twins serve templates alike if everything registered means the same to both. -/
def service (hopen : τ.Open) : Service C where
  toLikeness := τ.likeness
  state := ViewState.Rel τ
  fragment := Fragment.Rel τ
  owner := Owner.Rel τ
  hooks _ _ := True
  body := τ.Fixes
  definition := T.catalog.Has
  writes := False
  get := .get
  functions hs := hs.functions
  stores hs hid := optionRel_imp (hs.stores hid) fun _ _ h => ⟨h.state, h.mutations, h.fixes⟩
  catalog hs := hs.catalog.2.trans hs.catalog.1.symm
  registered hs := by
    rw [hs.catalog.1]
    rintro (h | h | h)
    · exact .component (mem_of_lookup h)
    · exact .layout (mem_of_lookup h)
    · exact .view (mem_of_lookup h)
  services hs := by
    rw [hs.catalog.1]
    exact hopen.services
  store hs hid := hopen.store (hs.catalog.1 ▸ hid)
  pushed hs := hs.pushed
  failure kind e e' h := by
    obtain rfl := h trivial
    exact Alike.get.bind fun s s' hs => .pure (by
      rw [hs.settings]
      exact .refl _)
  live hdata hsections := .live hdata (fragments_rel_iff.mpr hsections)
  fragment_body hfree hs ho :=
    .body (Bool.eq_false_iff.mpr hfree) (Scope.rel_iff_alike.mpr hs) ho
  renderFragment := alike_renderFragment hopen
  render hfree hs := alike_render hopen (Bool.eq_false_iff.mpr hfree) (Scope.rel_iff_alike.mpr hs)
  invokeFunction hb hargs := hopen.applies hb (.function hargs)
  invokeMethod hb hdata hargs := hopen.applies hb (.method hdata hargs)
  invokeMutation hb hdata hv := hopen.applies hb (.mutation hdata hv)
  newFunction := alike_newFunction
  pushStack := alike_pushStack
  newHookSet := alike_newHookSet
  setAmbient _ := alike_setAmbient _ _
  addHooks hd _ := alike_addHooks _ _ fun _ => hopen.lawful.hooks hd
  routineOf hd := by
    refine τ.likeness.imp (alike_routineOf hopen hd) ?_
    rintro r r' ⟨rfl, rfl⟩
    exact ⟨rfl, Bool.eq_false_iff.mp (hopen.lawful.loopFree hd)⟩
  methods := hopen.methods
  newHost := .newHost
  furnish := by
    intro α α' R d o o' h h' f f' hd hdata hgiven hprops _ hf
    -- from here on the data is known, and either untouched or not written to
    have hrest : ∀ {x x' V}, τ.rel (.object x) (.object x') → (x ∈ V ∨ o.props = .empty) →
        Twin τ (fun _ => R) V (do let _ ← setAmbient h; setAll x o.props.entries; f x)
          (do let _ ← setAmbient h'; setAll x' o'.props.entries; f' x') := by
      intro x x' V hx hV
      have hset : Twin τ (fun _ _ _ => True) V (setAll (C := C) x o.props.entries)
          (setAll x' o'.props.entries) := by
        rcases hV with hV | hempty
        · exact twin_setAll hx hprops hV
        · rw [hempty] at hprops ⊢
          rw [List.forall₂_nil_left_iff.mp hprops]
          exact .done trivial
      refine .step (.modify fun s s' hs => ?_) ?_
      · exact .of_keeps hs { Keeps.refl s with } { Keeps.refl s' with } rfl rfl
          hs.pushed hs.compiled
      · rintro s s' _ ⟨-, -, rfl⟩
        exact hset.bind fun V _ _ _ => hf x x' hx V
    intro V
    generalize o.data = x, o'.data = x' at hdata hgiven
    cases hdata with
    | some hx => exact hrest hx (.inr (hgiven id rfl))
    | none => exact (twin_createData hopen hd V).bind fun V x x' h => hrest h.2 (.inl h.1)
  fill := by
    intro α α' R fields fields' more more' f f' hfields hmore hf V
    refine .step (.newObject hfields) ?_
    rintro x x' _ ⟨hx, -, rfl⟩
    exact (twin_setAll hx hmore (.inl rfl)).bind fun V _ _ _ => hf x x' hx V

end Twins.Open

lemma View.hostOf_alike (hopen : τ.Open) (h : Owner.Rel τ owner owner') :
    (hostOf owner).Alike τ.likeness (Fragment.Rel τ) (hostOf (C := C) owner') := by
  cases h with
  | live hdata hsections =>
    exact Service.liveHost_alike (L := hopen.service) hdata (fragments_rel_iff.mp hsections)
  | preview hkit hsections =>
    refine Service.previewHost_alike (L := hopen.service) trivial ?_
      (fragments_rel_iff.mp hsections)
    exact ⟨hkit.layouts, fun e he => Bool.eq_false_iff.mp (hkit.loopFree e he), hkit.services,
      hkit.globals, hkit.broken, fun h => .preview hkit (fragments_rel_iff.mpr h)⟩

end LiveMarkup
