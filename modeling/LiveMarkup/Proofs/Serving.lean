import LiveMarkup.Proofs.Modesty

/-!
# What templates are served with

Functions, host objects, components, layouts, includes and previews: whatever a template reaches
keeps to a few dealings. It looks at containers and makes them, writes into data that is new, takes
notes in the state, runs code of the application, and renders for owners it was given. A sense in
which all of these are alike in two runs (`Service`) is one in which the surroundings of templates
are.

A failure may be worded in different ways under a likeness that is not strict. It travels as data: a
slot or section that fails hands it on as a diagnostic, `$slot` and `$sections` raise it again, and
a store wraps it. All of these keep the kind, and what is shown in the end is up to the service.
-/

namespace LiveMarkup

open List ViewState Program View Value Option
open RenderError (fragment kind)
open View (failure invoke setAll)

variable {C : Client}

/-- Whoever looks at the page sees the same: equal markup, or failures of one kind that are shown by
one fragment. -/
inductive Rendered.SamePage : Rendered → Rendered → Prop
  | markup (html : String) : SamePage (.markup html) (.markup html)
  | diagnostic {d d' : Diagnostic} (hkind : d.kind = d'.kind) (h : d.fragment = d'.fragment) :
      SamePage (.diagnostic d) (.diagnostic d')

lemma Rendered.SamePage.html {r r' : Rendered} (h : r.SamePage r') : r.html = r'.html := by
  cases h with
  | markup html => rfl
  | diagnostic _ h => exact h

lemma Rendered.SamePage.refl (r : Rendered) : r.SamePage r := by
  cases r with
  | markup html => exact .markup html
  | diagnostic d => exact .diagnostic rfl rfl

lemma Congruence.Alike.bindEq {L : Likeness S} (hp : L.Alike Eq p p')
    (hf : ∀ a, L.Alike Q (f a) (f' a)) : L.Alike Q (p >>= f) (p' >>= f') :=
  L.bind hp fun a _ h => h ▸ hf a

lemma Likeness.Outcome.fail {L : Likeness S} {kind : ε → String} (e : ε) :
    L.Outcome kind R (.error e) (.error e) :=
  .error rfl fun _ => rfl

/-! ## Services -/

/-- The code of functions that does the same in two runs. The fragments that are shown are related,
and the bodies that are run are of one kind. -/
inductive FunctionCode.Alike {B : Type} (N : Naming) (F : Fragment Owner → Fragment Owner → Prop)
    (P : B → Prop) : FunctionCode B → FunctionCode B → Prop
  | body (hb : P b) : Alike N F P (.body b) (.body b)
  | method (hdata : N.rel (.object data) (.object data')) (hb : P b) :
      Alike N F P (.method data b) (.method data' b)
  | classNames : Alike N F P .classNames .classNames
  | styleNames : Alike N F P .styleNames .styleNames
  | escape : Alike N F P .escape .escape
  | slot (h : slots.Rel F slots') : Alike N F P (.slot slots) (.slot slots')
  | sectionOf (h : F f f') : Alike N F P (.sectionOf f) (.sectionOf f')
  | push : Alike N F P .push .push
  | stack : Alike N F P .stack .stack

/-- A sense in which two runs serve templates alike: what they take for the same besides values, and
the dealings from which everything else is put together. -/
structure Service (C : Client) extends Likeness C.signature where
  state : ViewState C → ViewState C → Prop
  fragment : Fragment Owner → Fragment Owner → Prop
  owner : Owner → Owner → Prop
  hooks : Option HookSetId → Option HookSetId → Prop
  /-- Code of the application that does the same in both. -/
  body : C.Body → Prop
  /-- Definitions that mean the same to both. -/
  definition : Definition C.Body → Prop
  /-- Data that an instance is given may be written to. -/
  writes : Prop
  -- the state
  get : Alike state get get
  functions : ∀ {s s' f f'}, state s s' → rel (.function f) (.function f') →
    Rel (FunctionCode.Alike toNaming fragment body) s.functions[f.index]?
      s'.functions[f'.index]?
  stores : ∀ {s s' id id'}, state s s' → rel (.store id) (.store id') →
    Rel (fun x x' => rel (.object x.state) (.object x'.state) ∧ x'.mutations = x.mutations ∧
      ∀ e ∈ x.mutations.entries, body e.2) s.stores[id.index]? s'.stores[id'.index]?
  catalog : ∀ {s s'}, state s s' → s'.catalog = s.catalog
  registered : ∀ {s s' name d}, state s s' → s.catalog.components.get? name = some d ∨
    s.catalog.layouts.get? name = some d ∨ s.catalog.views.get? name = some d → definition d
  services : ∀ {s s'}, state s s' → s.catalog.services.Rel (Rel toNaming) s.catalog.services
  store : ∀ {s s' id}, state s s' → s.catalog.store = some id → rel (.store id) (.store id)
  pushed : ∀ {s s'}, state s s' → s'.pushed = s.pushed
  failure : ∀ kind {e e'}, (strict → e = e') →
    Alike Rendered.SamePage (failure kind e) (failure kind e')
  -- fragments and owners
  live : ∀ {data data' sections sections'}, rel (.object data) (.object data') →
    sections.Rel fragment sections' → owner (.live data sections) (.live data' sections')
  fragment_body : ∀ {code scope scope' o o'}, toLikeness.Free (bodyBindsLoop code) →
    Scope.Alike toLikeness scope scope' → owner o o' →
    fragment (.body code scope o) (.body code scope' o')
  renderFragment : ∀ {f f'}, fragment f f' →
    Alike (fun r r' => toLikeness.Outcome kind Eq r.outcome r'.outcome)
      (renderFragment f) (renderFragment f')
  render : ∀ {r scope scope' o o'}, toLikeness.Free (bodyBindsLoop r.body) →
    Scope.Alike toLikeness scope scope' → owner o o' →
    Alike (toLikeness.Outcome kind Eq) (View.render r scope o) (View.render r scope' o')
  -- code of the application
  invokeFunction : ∀ {b args args'}, body b → Forall₂ (Rel toNaming) args args' →
    toLikeness.Applies (invoke b (.function args)) (invoke b (.function args'))
  invokeMethod : ∀ {b data data' args args'}, body b → rel (.object data) (.object data') →
    Forall₂ (Rel toNaming) args args' →
    toLikeness.Applies (invoke b (.method data args)) (invoke b (.method data' args'))
  invokeMutation : ∀ {b data data' v v'}, body b → rel (.object data) (.object data') →
    Rel toNaming v v' →
    toLikeness.Applies (invoke b (.mutation data v)) (invoke b (.mutation data' v'))
  -- notes in the state
  newFunction : ∀ {c c'}, FunctionCode.Alike toNaming fragment body c c' → ∀ name,
    Alike (Rel toNaming) (newFunction c name) (newFunction c' name)
  pushStack : ∀ name content,
    Alike (fun _ _ => True) (pushStack name content) (pushStack name content)
  newHookSet : Alike (fun h h' => hooks (some h) (some h')) newHookSet newHookSet
  setAmbient : ∀ {h h'}, hooks h h' → Alike hooks (View.setAmbient h) (View.setAmbient h')
  addHooks : ∀ {d h h'}, definition d → hooks (some h) (some h') →
    Alike (fun _ _ => True) (modify (addHooks h d.mounted d.unmounted))
      (modify (addHooks h' d.mounted d.unmounted))
  routineOf : ∀ {d}, definition d →
    Alike (fun r r' => r' = r ∧ toLikeness.Free (bodyBindsLoop r.body)) (routineOf d)
      (routineOf d)
  methods : ∀ {d}, definition d → ∀ e ∈ d.methods.entries, body e.2
  -- containers
  newHost : ∀ {x x' : HostObject}, x.Rel toNaming x' →
    Alike (fun i i' => rel (.host i) (.host i')) (newHost x) (newHost x')
  /-- An instance comes to its data, and the props are stored there. -/
  furnish : ∀ {α α' : Type} {R : α → α' → Prop} {d} {o o' : InstanceOptions} {h h'}
    {f : ObjectId → View C α} {f' : ObjectId → View C α'}, definition d →
    Rel (fun x x' => rel (.object x) (.object x')) o.data o'.data →
    (¬ writes → o.data.isSome → o.props = .empty) → o.props.Rel (Rel toNaming) o'.props →
    hooks h h' →
    (∀ x x', rel (.object x) (.object x') → Alike R (f x) (f' x')) →
    Alike R
      (do
        let x ← match o.data with
          | some x => Pure.pure x
          | none => View.createData d
        let _ ← View.setAmbient h
        setAll x o.props.entries
        f x)
      (do
        let x ← match o'.data with
          | some x => Pure.pure x
          | none => View.createData d
        let _ ← View.setAmbient h'
        setAll x o'.props.entries
        f' x)
  /-- A new object is filled at once. -/
  fill : ∀ {α α' : Type} {R : α → α' → Prop} {fields fields' : Table Value}
    {more more' : List (String × Value)} {f : ObjectId → View C α} {f' : ObjectId → View C α'},
    fields.Rel (Rel toNaming) fields' → Forall₂ (EntryRel (Rel toNaming)) more more' →
    (∀ x x', rel (.object x) (.object x') → Alike R (f x) (f' x')) →
    Alike R (do let x ← Program.newObject fields; setAll x more; f x)
      (do let x ← Program.newObject fields'; setAll x more'; f' x)

structure InstanceOptions.Alike (L : Service C) (o o' : InstanceOptions) : Prop where
  props : o.props.Rel L.value o'.props
  attributes : o.attributes.Rel L.value o'.attributes
  slots : o.slots.Rel L.fragment o'.slots
  sections : o.sections.Rel L.fragment o'.sections
  data : Rel (fun d d' => L.rel (.object d) (.object d')) o.data o'.data
  given : ¬ L.writes → o.data.isSome → o.props = .empty

/-- Instances that render alike. -/
structure Instance.Alike (L : Service C) (x x' : C.Instance) : Prop where
  routine : x'.routine = x.routine
  free : L.Free (bodyBindsLoop x.routine.body)
  data : L.rel (.object x.data) (.object x'.data)
  globals : x.globals.Rel L.value x'.globals
  sections : x.sections.Rel L.fragment x'.sections

structure PreviewKit.Alike (L : Service C) (k k' : PreviewKit) : Prop where
  layouts : k'.layouts = k.layouts
  free : ∀ e ∈ k.layouts.entries, L.Free (bodyBindsLoop e.2.body)
  services : k.services.Rel L.value k'.services
  globals : k.globals.Rel L.value k'.globals
  broken : k'.broken = k.broken
  owner : ∀ {sections sections'}, sections.Rel L.fragment sections' →
    L.owner (.preview k sections) (.preview k' sections')

namespace Service

open View

variable {L : Service C} {state : ObjectId} {sections : Slots Owner} {id : StoreId}

/-! ## Functions -/

lemma alike_fragmentText (h : L.fragment f f') : L.Applies (fragmentText f) (fragmentText f') := by
  refine L.bind (L.renderFragment h) fun r r' hr => ?_
  match r, r', hr with
  | .markup html, .markup _, .ok h =>
    cases h
    exact L.pure (.ok (.text html))
  | .diagnostic d, .diagnostic d', .error _ h =>
    exact L.pure (.error rfl fun hs => congrArg ValueError.custom (fragment.inj (h hs)))

lemma alike_display (h : L.value v v') : L.Alike Eq (display v) (display v') := L.read (.display h)

lemma alike_firstText (h : Forall₂ L.value args args') :
    L.Alike Eq (firstText args) (firstText args') := by
  cases h with
  | nil => exact L.pure rfl
  | cons hv _ =>
    have hshown := L.alike_display hv
    cases hv with
    | undefined => exact L.pure rfl
    | _ => exact hshown.bindEq fun s => L.pure rfl

lemma alike_argText (h : Forall₂ L.value args args') (i : Nat) :
    L.Alike Eq (argText args i) (argText args' i) := by
  have hi := optionRel_getElem? h i
  unfold argText
  generalize args[i]? = x, args'[i]? = x' at hi
  cases hi with
  | some hv => exact alike_display hv
  | none => exact L.pure rfl

lemma alike_stackText (name : String) : L.Alike Eq (stackText name) (stackText name) :=
  L.bind L.get fun _ _ hs => L.pure (by rw [L.pushed hs])

lemma alike_runFunction {code code' : FunctionCode C.Body}
    (h : code.Alike L.toNaming L.fragment L.body code') (hargs : Forall₂ L.value args args') :
    L.Applies (runFunction code args) (runFunction code' args') := by
  cases h with
  | body hb => exact L.invokeFunction hb hargs
  | method hdata hb => exact L.invokeMethod hb hdata hargs
  | classNames =>
    exact (L.read (.classNames (Eval.headD_rel hargs))).bindEq fun s => L.pure (.ok (.text s))
  | styleNames =>
    exact (L.read (.styleNames (Eval.headD_rel hargs))).bindEq fun s => L.pure (.ok (.text s))
  | escape =>
    have hv := Eval.headD_rel hargs
    simp only [runFunction]
    rw [hv.isNullish]
    split
    · exact L.pure (.ok (.text _))
    · exact (alike_display hv).bindEq fun s => L.pure (.ok (.text _))
  | @slot slots slots' hslots =>
    refine (alike_firstText hargs).bindEq fun name => ?_
    have hf := hslots.get? (name.getD "default")
    generalize slots.get? (name.getD "default") = x, slots'.get? (name.getD "default") = x' at hf
    cases hf with
    | some hf => exact alike_fragmentText hf
    | none => exact L.pure (.ok (.text _))
  | sectionOf hf => exact alike_fragmentText hf
  | push =>
    refine (alike_firstText hargs).bindEq fun name => ?_
    refine (alike_argText hargs 1).bindEq fun content => ?_
    exact L.bind (L.pushStack _ content) fun _ _ _ => L.pure (.ok .undefined)
  | stack =>
    refine (alike_firstText hargs).bindEq fun name => ?_
    exact (alike_stackText _).bindEq fun s => L.pure (.ok (.text s))

lemma alike_apply (h : L.rel (.function f) (.function f'))
    (hargs : Forall₂ L.value args args') : L.Applies (apply f args) (apply f' args') := by
  refine L.bind L.get fun s s' hs => ?_
  have hf := L.functions hs h
  generalize s.functions[f.index]? = x, s'.functions[f'.index]? = x' at hf
  cases hf with
  | some hcode => exact alike_runFunction hcode hargs
  | none => exact L.pure (.ok .undefined)

/-! ## Stores and host objects -/

lemma alike_commit (h : L.rel (.store id) (.store id')) (mutation : String) (hv : L.value v v') :
    L.Alike (L.Outcome ViewError.kind Eq) (commit id mutation v) (commit id' mutation v') := by
  refine L.bind L.get fun s s' hs => ?_
  have hstore := L.stores hs h
  generalize s.stores[id.index]? = x, s'.stores[id'.index]? = x' at hstore
  cases hstore with
  | none => exact L.pure (.fail _)
  | @some store store' hstore =>
    obtain ⟨hstate, hmutations, hbodies⟩ := hstore
    dsimp only
    rw [hmutations]
    cases hb : store.mutations.get? mutation with
    | none => exact L.bind (L.report _) fun _ _ _ => L.pure (.fail _)
    | some b =>
      refine L.bind (L.invokeMutation (hbodies _ (mem_of_lookup hb)) hstate hv) fun r r' hr => ?_
      cases hr with
      | ok _ => exact L.pure (.ok rfl)
      | error hkind h => exact L.pure (.error hkind fun hs => congrArg _ (h hs))

lemma alike_storeMethod (h : L.rel (.store id) (.store id')) (name : String)
    (hargs : Forall₂ L.value args args') :
    L.Applies (storeMethod id name args) (storeMethod id' name args') := by
  unfold storeMethod
  split
  · refine (alike_argText hargs 0).bindEq fun mutation => ?_
    have hv : L.value (args.getD 1 .undefined) (args'.getD 1 .undefined) := by
      exact optionRel_getD (optionRel_getElem? hargs 1) .undefined
    refine L.bind (alike_commit h mutation hv) fun r r' hr => ?_
    cases hr with
    | ok _ => exact L.pure (.ok .undefined)
    | error _ h => exact L.pure (.error rfl fun hs => by rw [h hs])
  · exact L.pure (.fail _)

lemma alike_bagMethod (h : attrs.Rel L.value attrs') (name : String)
    (hargs : Forall₂ L.value args args') :
    L.Applies (bagMethod attrs name args) (bagMethod attrs' name args') := by
  have hmerge : ∀ {defaults defaults' : Table Value}, defaults.Rel L.value defaults' →
      L.Applies (mergedBag attrs defaults) (mergedBag attrs' defaults') := by
    intro defaults defaults' hd
    refine L.bind (L.read (.mergedAttributes h hd)) fun merged merged' hm => ?_
    exact L.bind (L.newHost (.bag hm)) fun i i' hi => L.pure (.ok (.host hi))
  unfold bagMethod
  split
  · cases hargs with
    | nil => exact hmerge .empty
    | cons hv _ =>
      cases hv with
      | undefined => exact hmerge .empty
      | object ho => exact L.bind (L.read (.entries ho)) fun _ _ he => hmerge (.ofList he)
      | _ => exact L.pure (.fail _)
  · exact (L.read (.attributesHtml h)).bindEq fun s => L.pure (.ok (.text s))
  · cases hargs with
    | nil => exact L.pure (.ok (.bool false))
    | cons hv _ =>
      refine (alike_display hv).bindEq fun s => L.pure ?_
      rw [h.contains]
      exact .ok (.bool _)
  · exact L.pure (.fail _)

lemma alike_currentUser (h : L.rel (.object state) (.object state')) :
    L.Alike L.value (currentUser state) (currentUser state') :=
  L.bind (L.read (.property h "user")) fun _ _ hv => L.pure (optionRel_getD hv .undefined)

lemma isSignedInName_rel (h : L.value v v') : isSignedInName v = isSignedInName v' := by
  cases h <;> rfl

lemma alike_isSignedIn (h : L.rel (.object state) (.object state')) :
    L.Alike Eq (isSignedIn state) (isSignedIn state') := by
  refine L.bind (alike_currentUser h) fun user user' hu => ?_
  rw [hu.isTruthy]
  split
  · exact L.pure rfl
  · cases hu with
    | object ho =>
      refine L.bind (L.read (.property ho "name")) fun name name' hn => ?_
      exact L.pure (isSignedInName_rel (optionRel_getD hn .undefined))
    | _ => exact L.pure rfl

lemma alike_authMethod (h : L.rel (.object state) (.object state')) (name : String) :
    L.Applies (authMethod state name) (authMethod state' name) := by
  unfold authMethod
  split
  · exact L.bind (alike_currentUser h) fun _ _ hu => L.pure (.ok hu)
  · exact (alike_isSignedIn h).bindEq fun b => L.pure (.ok (.bool b))
  · exact (alike_isSignedIn h).bindEq fun b => L.pure (.ok (.bool !b))
  · exact L.pure (.fail _)

lemma alike_callHost (h : L.rel (.host i) (.host i')) (name : String)
    (hargs : Forall₂ L.value args args') :
    L.Applies (callHost i name args) (callHost i' name args') := by
  refine L.bind (L.read (.hostObject h)) fun x x' hx => ?_
  cases hx with
  | plain typeName => exact L.pure (.fail _)
  | bag hattrs => exact alike_bagMethod hattrs name hargs
  | store hid _ => exact alike_storeMethod hid name hargs
  | auth hstate => exact alike_authMethod hstate name

/-! ## Names -/

lemma alike_sectionFunctions (h : Forall₂ (EntryRel L.fragment) l l') :
    L.Alike (Forall₂ (EntryRel L.value)) (sectionFunctions l) (sectionFunctions l') := by
  induction h using entries_induction with
  | nil => exact L.pure .nil
  | cons name hf _ ih =>
    refine L.bind (L.newFunction (.sectionOf hf) name) fun v v' hv => ?_
    exact L.bind ih fun vs vs' hvs => L.pure (.cons ⟨rfl, hv⟩ hvs)

lemma alike_boundMethods (hdata : L.rel (.object data) (.object data')) (hl : ∀ e ∈ l, L.body e.2) :
    L.Alike (Forall₂ (EntryRel L.value)) (boundMethods data l) (boundMethods data' l) := by
  induction l with
  | nil => exact L.pure .nil
  | cons e rest ih =>
    obtain ⟨hb, hrest⟩ := forall_mem_cons.mp hl
    refine L.bind (L.newFunction (.method hdata hb) e.1) fun v v' hv => ?_
    exact L.bind (ih hrest) fun vs vs' hvs => L.pure (.cons ⟨rfl, hv⟩ hvs)

lemma alike_storeNames : L.Alike (Forall₂ (EntryRel L.value)) storeNames storeNames := by
  refine L.bind L.get fun s s' hs => ?_
  rw [L.catalog hs]
  cases hid : s.catalog.store with
  | none => exact L.pure .nil
  | some id =>
    have hrel := L.store hs hid
    have hstore := L.stores hs hrel
    dsimp only [bind_some]
    generalize s.stores[id.index]? = x, s'.stores[id.index]? = x' at hstore
    cases hstore with
    | none => exact L.pure .nil
    | some hstore =>
      refine L.bind (L.newHost (.store hrel hstore.1)) fun i i' hi => ?_
      refine L.bind (L.newHost (.auth hstore.1)) fun j j' hj => ?_
      exact L.pure (.cons ⟨rfl, .host hi⟩ (.cons ⟨rfl, .host hj⟩ .nil))

lemma alike_globalNames (hd : L.definition d) (hdata : L.rel (.object data) (.object data'))
    (ho : o.Alike L o') :
    L.Alike (Table.Rel L.value) (globalNames d data o) (globalNames d data' o') := by
  refine L.bind (L.newFunction .classNames _) fun v1 v1' h1 => ?_
  refine L.bind (L.newFunction .styleNames _) fun v2 v2' h2 => ?_
  have hfunctions : Forall₂ (EntryRel L.value) [("classNames", v1), ("styleNames", v2)]
      [("classNames", v1'), ("styleNames", v2')] :=
    .cons ⟨rfl, h1⟩ (.cons ⟨rfl, h2⟩ .nil)
  refine L.bind (L.newObject (.ofList hfunctions)) fun helpers helpers' hhelpers => ?_
  refine L.bind (L.newObject (ho.slots.map fun _ _ _ => .bool true)) fun flags flags' hflags => ?_
  refine L.bind (L.newFunction (.slot ho.slots) _) fun slot slot' hslot => ?_
  refine L.bind (alike_sectionFunctions ho.sections) fun entries entries' hentries => ?_
  refine L.bind (L.newObject (.ofList hentries)) fun sections sections' hsections => ?_
  refine L.bind (L.newFunction .push _) fun push push' hpush => ?_
  refine L.bind (L.newFunction .stack _) fun stack stack' hstack => ?_
  refine L.bind L.get fun s s' hs => ?_
  rw [L.catalog hs]
  refine L.bind (L.newObject (L.services hs)) fun services services' hservices => ?_
  refine L.bind (L.newHost (.bag ho.attributes)) fun attributes attributes' hattributes => ?_
  refine L.bind (L.newFunction .escape _) fun escape escape' hescape => ?_
  refine L.bind (alike_boundMethods hdata (L.methods hd)) fun methods methods' hmethods => ?_
  refine L.bind alike_storeNames fun store store' hstore => ?_
  refine L.pure (.ofList (rel_append (rel_append ?_ hmethods) hstore))
  exact .cons ⟨rfl, .object hhelpers.1⟩ <| .cons ⟨rfl, .object hflags.1⟩ <| .cons ⟨rfl, hslot⟩ <|
    .cons ⟨rfl, .object hsections.1⟩ <| .cons ⟨rfl, hpush⟩ <| .cons ⟨rfl, hstack⟩ <|
    .cons ⟨rfl, .object hservices.1⟩ <| .cons ⟨rfl, .host hattributes⟩ <|
    .cons ⟨rfl, hescape⟩ .nil

/-! ## Children -/

lemma alike_construct (hd : L.definition d) (ho : o.Alike L o') :
    L.Alike (Instance.Alike L) (construct d o) (construct d o') := by
  refine L.bind L.newHookSet fun hooks hooks' hhooks => ?_
  refine L.bind (L.setAmbient hhooks) fun previous previous' hprevious => ?_
  refine L.furnish hd ho.data ho.given ho.props hprevious fun data data' hdata => ?_
  refine L.bind (L.addHooks hd hhooks) fun _ _ _ => ?_
  refine L.bind (alike_globalNames hd hdata ho) fun globals globals' hglobals => ?_
  refine L.bind (L.routineOf hd) fun r r' hr => ?_
  exact L.pure ⟨hr.1, hr.2, hdata, hglobals, ho.sections⟩

lemma alike_renderInstance (hx : x.Alike L x') :
    L.Alike (L.Outcome RenderError.kind Eq) (renderInstance x) (renderInstance x') := by
  rw [renderInstance, renderInstance, hx.routine]
  exact L.render hx.free ⟨hx.data, hx.globals, .nil, nofun⟩ (L.live hx.data hx.sections)

lemma alike_settle (kind : DiagnosticKind) (event : Event)
    (h : L.Outcome RenderError.kind Eq r r') :
    L.Alike Rendered.SamePage (settle kind event r) (settle kind event r') := by
  cases h with
  | @ok html _ h =>
    rw [← h]
    exact L.pure (.markup html)
  | error _ h => exact L.bind (L.report event) fun _ _ _ => L.failure kind h

lemma alike_settled (hd : L.definition d) (ho : o.Alike L o') (kind : DiagnosticKind)
    (event : Event) : L.Alike Rendered.SamePage (renderChild d o >>= settle kind event)
      (renderChild d o' >>= settle kind event) := by
  have hchild := L.bind (alike_construct hd ho) fun _ _ hx => alike_renderInstance hx
  exact L.bind hchild fun _ _ h => alike_settle kind event h

lemma alike_missing (event : Event) (what name : String) :
    L.Alike Rendered.SamePage (missing event what name) (missing event what name) :=
  L.bind (L.report event) fun _ _ _ => L.pure (.diagnostic rfl rfl)

lemma alike_renderDynamic (hd : L.definition d) (hattrs : attrs.Rel L.value attrs')
    (hslots : slots.Rel L.fragment slots') :
    L.Alike Rendered.SamePage (renderDynamic d attrs slots) (renderDynamic d attrs' slots') := by
  unfold renderDynamic
  rw [partition_eq_filter_filter, partition_eq_filter_filter]
  refine alike_settled hd ?_ _ _
  exact ⟨filter_rel d.isProp hattrs, filter_rel (fun name => !d.isProp name) hattrs, hslots, .nil,
    .none, fun _ => nofun⟩

lemma alike_renderComponent (name : String) (hattrs : attrs.Rel L.value attrs')
    (hslots : slots.Rel L.fragment slots') :
    L.Alike Rendered.SamePage (renderComponent name attrs slots)
      (renderComponent name attrs' slots') := by
  refine L.bind L.get fun s s' hs => ?_
  rw [L.catalog hs]
  cases hd : s.catalog.components.get? name with
  | some d => exact alike_renderDynamic (L.registered hs (.inl hd)) hattrs hslots
  | none => exact alike_missing _ _ _

lemma alike_renderLayout (name : String) (hsections : sections.Rel L.fragment sections') :
    L.Alike Rendered.SamePage (renderLayout name sections) (renderLayout name sections') := by
  refine L.bind L.get fun s s' hs => ?_
  rw [L.catalog hs]
  cases hd : s.catalog.layouts.get? name with
  | some d =>
    refine alike_settled (L.registered hs (.inr (.inl hd))) ?_ _ _
    exact ⟨.nil, .nil, .nil, hsections, .none, fun _ => nofun⟩
  | none => exact alike_missing _ _ _

lemma alike_renderInclude (hdata : L.rel (.object data) (.object data')) (name : String)
    (hpassed : Rel L.value passed passed') :
    L.Alike Rendered.SamePage (renderInclude data name passed)
      (renderInclude data' name passed') := by
  refine L.bind L.get fun s s' hs => ?_
  rw [L.catalog hs]
  cases hd : s.catalog.views.get? name with
  | none => exact alike_missing _ _ _
  | some d =>
    refine L.bind (L.read (.entries hdata)) fun entries entries' hentries => ?_
    have hrest : ∀ {more more' : List (String × Value)}, Forall₂ (EntryRel L.value) more more' →
        L.Alike Rendered.SamePage (renderOver d entries more) (renderOver d entries' more') := by
      intro more more' hmore
      refine L.fill hentries hmore fun merged merged' hmerged => ?_
      refine alike_settled (L.registered hs (.inr (.inr hd))) ?_ _ _
      exact ⟨.nil, .nil, .nil, .nil, .some hmerged, fun _ _ => rfl⟩
    cases hpassed with
    | none => exact hrest .nil
    | some hv =>
      cases hv with
      | object ho => exact L.bind (L.read (.entries ho)) fun _ _ hmore => hrest hmore
      | _ => exact hrest .nil

lemma liveHost_alike (hdata : L.rel (.object data) (.object data'))
    (hsections : sections.Rel L.fragment sections') :
    (liveHost data sections).Alike L.toLikeness L.fragment (liveHost data' sections') where
  body hs _ hfree := L.fragment_body hfree hs (L.live hdata hsections)
  component name _ _ _ _ hattrs hslots :=
    L.imp (alike_renderComponent name hattrs hslots) fun _ _ h => h.html
  layout name _ _ hsections := L.imp (alike_renderLayout name hsections) fun _ _ h => h.html
  includeView name _ _ hpassed := L.imp (alike_renderInclude hdata name hpassed) fun _ _ h => h.html
  sectionOf name := hsections.get? name
  fragment := L.renderFragment
  push := L.pushStack
  stack := alike_stackText
  service name := L.bind L.get fun s s' hs => L.pure (by
    rw [L.catalog hs]
    exact (L.services hs).get? name)
  apply := alike_apply
  invoke := alike_callHost

/-! ## Previews -/

lemma alike_previewAttributes (h : Forall₂ (EntryRel L.value) entries entries') :
    L.Alike Eq (previewAttributes entries) (previewAttributes entries') := by
  induction h using entries_induction with
  | nil => exact L.pure rfl
  | cons name hv _ ih =>
    refine (alike_display hv).bindEq fun s => ?_
    exact ih.bindEq fun more => L.pure (by rw [hv.typeName])

/-- A preview shows messages of failures, so they have to be equal. -/
lemma alike_previewSlots (hstrict : L.strict) {l l' : List (String × Fragment Owner)}
    (h : Forall₂ (EntryRel L.fragment) l l') : L.Alike Eq (previewSlots l) (previewSlots l') := by
  induction h using entries_induction with
  | nil => exact L.pure rfl
  | cons name hf _ ih =>
    refine L.bind (L.renderFragment hf) fun r r' hr => ?_
    match r, r', hr with
    | .markup html, .markup _, .ok h => exact ih.bindEq fun more => L.pure (by rw [h])
    | .diagnostic d, .diagnostic d', .error _ h =>
      exact ih.bindEq fun more => L.pure (by rw [fragment.inj (h hstrict)])

lemma alike_previewComponent (hstrict : L.strict) (hkit : kit.Alike L kit') (name : String)
    (hattrs : attrs.Rel L.value attrs') (hslots : slots.Rel L.fragment slots') :
    L.Alike Eq (previewComponent kit name attrs slots)
      (previewComponent kit' name attrs' slots') := by
  unfold previewComponent
  rw [hkit.broken]
  split
  · exact L.pure rfl
  · refine (alike_previewAttributes hattrs).bindEq fun shownAttrs => ?_
    exact (alike_previewSlots hstrict hslots).bindEq fun shownSlots => L.pure rfl

lemma alike_previewLayout (hstrict : L.strict) (hkit : kit.Alike L kit') (name : String)
    (hsections : sections.Rel L.fragment sections') :
    L.Alike Eq (previewLayout kit name sections) (previewLayout kit' name sections') := by
  unfold previewLayout
  rw [hkit.layouts]
  cases hr : kit.layouts.get? name with
  | none => exact L.pure rfl
  | some r =>
    refine L.bind (L.newObject .empty) fun data data' hdata => ?_
    refine L.bind (L.render (hkit.free _ (mem_of_lookup hr)) ⟨hdata.1, hkit.globals, .nil, nofun⟩
      (hkit.owner hsections)) fun r r' hr => ?_
    cases hr with
    | ok h => exact L.pure (by rw [h])
    | error _ h => exact L.pure (by rw [h hstrict])

lemma alike_previewInclude (name : String) {passed passed' : Option Value}
    (h : Rel L.value passed passed') :
    L.Alike Eq (previewInclude name passed) (previewInclude name passed') := by
  cases h with
  | none => exact L.pure rfl
  | some hv =>
    refine (L.read (.json hv)).bindEq fun r => ?_
    cases r <;> exact L.pure rfl

lemma previewHost_alike (hstrict : L.strict) (hkit : kit.Alike L kit')
    (hsections : sections.Rel L.fragment sections') :
    (previewHost kit sections).Alike L.toLikeness L.fragment (previewHost kit' sections') where
  body hs _ hfree := L.fragment_body hfree hs (hkit.owner hsections)
  component name _ _ _ _ hattrs hslots :=
    L.imp (alike_previewComponent hstrict hkit name hattrs hslots) fun _ _ h => h ▸ rfl
  layout name _ _ hsections :=
    L.imp (alike_previewLayout hstrict hkit name hsections) fun _ _ h => h ▸ rfl
  includeView name _ _ hpassed := L.imp (alike_previewInclude name hpassed) fun _ _ h => h ▸ rfl
  sectionOf name := hsections.get? name
  fragment := L.renderFragment
  push := L.pushStack
  stack := alike_stackText
  service name := L.pure (hkit.services.get? name)
  apply := alike_apply
  invoke := alike_callHost

end Service

/-! ## Where names do not matter -/

variable {owners : Owner → Prop}

/-- A fragment that belongs to one of the owners, if it belongs to anybody. -/
def Fragment.OwnedBy (owners : Owner → Prop) : Fragment Owner → Prop
  | .body _ _ owner => owners owner
  | _ => True

def Slots.OwnedBy (owners : Owner → Prop) (slots : Slots Owner) : Prop :=
  ∀ e ∈ slots.entries, e.2.OwnedBy owners

def FunctionCode.OwnedBy {B : Type} (owners : Owner → Prop) : FunctionCode B → Prop
  | .slot slots => slots.OwnedBy owners
  | .sectionOf f => f.OwnedBy owners
  | _ => True

abbrev Fragment.Same (owners : Owner → Prop) (f f' : Fragment Owner) : Prop :=
  f = f' ∧ f.OwnedBy owners

lemma Slots.same_iff {slots slots' : Slots Owner} :
    slots.Rel (Fragment.Same owners) slots' ↔ slots = slots' ∧ slots.OwnedBy owners := by
  obtain ⟨l⟩ := slots
  obtain ⟨l'⟩ := slots'
  rw [Table.mk.injEq]
  refine forall₂_iff_eq fun {e e'} => ?_
  rw [EntryRel, Fragment.Same, Prod.ext_iff, and_assoc]

/-- Looking at containers, making and writing them, and reporting. -/
def Op.IsDealing : C.Op → Prop
  | .read _ | .write _ | .newObject _ | .newHost _ | .log _ => True
  | _ => False

/-- A change of the state that takes notes: what is kept, registered and set stays as it is, and new
functions show fragments of the owners. -/
structure ViewState.Notes (owners : Owner → Prop) (f : ViewState C → ViewState C) : Prop where
  beside : ∀ s, Beside s (f s)
  minds : MindsStacks f
  client : ∀ s c, f { s with client := c } = { f s with client := c }
  functions : ∀ s {i : Nat} {code : FunctionCode C.Body}, (f s).functions[i]? = some code →
    s.functions[i]? = some code ∨ code.OwnedBy owners

lemma ViewState.Notes.of_functions {f : ViewState C → ViewState C} (hstacks : MindsStacks f)
    (hbeside : ∀ s, Beside s (f s) := by exact fun _ => ⟨rfl, rfl, rfl, rfl, rfl, rfl, rfl⟩)
    (hclient : ∀ s c, f { s with client := c } = { f s with client := c } := by exact fun _ _ => rfl)
    (hfunctions : ∀ s, (f s).functions = s.functions := by exact fun _ => rfl) : Notes owners f :=
  ⟨hbeside, hstacks, hclient, fun s _ _ h => .inl (hfunctions s ▸ h)⟩

/-- States of which something is known, and that differ in what the application keeps there for
itself at most. -/
def ViewState.Same (known : ViewState C → Prop) (s s' : ViewState C) : Prop :=
  known s ∧ ∃ c, s' = { s with client := c }

/-- A sense in which programs are like themselves that serve the templates of the owners. -/
structure Likeness.Serves (L : Likeness C.signature) (owners : Owner → Prop)
    (known : ViewState C → Prop) : Prop where
  same : L.toNaming = .same Set.univ
  loops : L.loops
  plain : ∀ op : C.Op, op.IsDealing →
    L.Alike Eq (perform op) (perform op)
  get : L.Alike (Same known) get get
  exchange : ∀ {f : ViewState C → ViewState C}, Notes owners f →
    L.Alike (Same known) (View.exchange f) (View.exchange f)
  invoke : ∀ (b : C.Body) {occasion : Invocation}, (∀ i, occasion ≠ .hook i) →
    L.Alike (L.Outcome ValueError.kind Eq) (View.invoke b occasion) (View.invoke b occasion)
  factory : ∀ b : C.Body, L.Alike (L.Outcome ValueError.kind Eq)
    (untracked (S := C.signature) (.invoke b .factory))
    (untracked (S := C.signature) (.invoke b .factory))
  render : ∀ (r : Routine) (scope : Scope) {owner : Owner}, owners owner →
    L.Alike (L.Outcome kind Eq) (View.render r scope owner) (View.render r scope owner)
  live : ∀ {data sections}, Slots.OwnedBy owners sections → owners (.live data sections)
  functions : ∀ {s : ViewState C} {i : Nat} {code : FunctionCode C.Body}, known s →
    s.functions[i]? = some code → code.OwnedBy owners
  failure : ∀ (kind : DiagnosticKind) {e e' : RenderError}, (L.strict → e = e') →
    L.Alike Rendered.SamePage (failure kind e) (failure kind e')

namespace Likeness.Serves

open View

variable {L : Likeness C.signature} {known : ViewState C → Prop} (hL : L.Serves owners known)

include hL

lemma rel_iff : L.rel a b ↔ a = b := by
  rw [hL.same]
  exact and_iff_right trivial

lemma value_iff : L.value v v' ↔ v = v' := by
  rw [Likeness.value, hL.same]
  exact rel_same.trans (and_iff_left v.known_univ)

lemma table_iff {t t' : Table Value} : t.Rel L.value t' ↔ t = t' := by
  rw [Likeness.value, hL.same]
  exact ⟨Table.Rel.eq_of_same, fun h => h ▸ .refl_same t⟩

lemma values_iff : Forall₂ L.value vs vs' ↔ vs = vs' := by
  rw [Likeness.value, hL.same]
  exact values_rel_same.trans (and_iff_left fun v _ => v.known_univ)

lemma scope_refl (scope : Scope) : Scope.Alike L scope scope where
  data := hL.rel_iff.mpr rfl
  globals := hL.table_iff.mpr rfl
  locals := forall₂_same.mpr fun _ _ => hL.table_iff.mpr rfl
  loop _ _ := L.own_of_loops hL.loops _

lemma scope_eq (h : Scope.Alike L scope scope') : scope = scope' := by
  obtain ⟨hdata, hglobals, hlocals, -⟩ := h
  obtain ⟨data, globals, locals⟩ := scope
  obtain ⟨data', globals', locals'⟩ := scope'
  cases hL.rel_iff.mp hdata
  obtain rfl : globals = globals' := hL.table_iff.mp hglobals
  obtain rfl : locals = locals' := forall₂_eq_eq_eq ▸ hlocals.imp fun _ _ => hL.table_iff.mp
  rfl

lemma functionCode_iff {code code' : FunctionCode C.Body} :
    code.Alike L.toNaming (Fragment.Same owners) (fun _ => True) code' ↔
      code = code' ∧ code.OwnedBy owners := by
  constructor
  · intro h
    cases h with
    | method hdata =>
      cases hL.rel_iff.mp hdata
      exact ⟨rfl, trivial⟩
    | slot h =>
      obtain ⟨rfl, howned⟩ := Slots.same_iff.mp h
      exact ⟨rfl, howned⟩
    | sectionOf h =>
      obtain ⟨rfl, howned⟩ := h
      exact ⟨rfl, howned⟩
    | _ => exact ⟨rfl, trivial⟩
  · rintro ⟨rfl, h⟩
    cases code with
    | method => exact .method (hL.rel_iff.mpr rfl) trivial
    | slot => exact .slot (Slots.same_iff.mpr ⟨rfl, h⟩)
    | sectionOf => exact .sectionOf ⟨rfl, h⟩
    | _ => constructor <;> trivial

lemma applies (h : L.Alike (L.Outcome ValueError.kind Eq) p p') : L.Applies p p' :=
  L.imp h fun _ _ => L.outcome_value hL.same

lemma note {f : ViewState C → ViewState C} {g : ViewState C → α} (hf : Notes owners f)
    (hg : ∀ s c, g { s with client := c } = g s) :
    L.Alike Eq (do return g (← View.exchange f)) (do return g (← View.exchange f)) := by
  refine L.bind (hL.exchange hf) ?_
  rintro s _ ⟨-, c, rfl⟩
  exact L.pure (hg s c).symm

lemma alike_setAmbient (h : Option HookSetId) : L.Alike Eq (setAmbient h) (setAmbient h) :=
  hL.note (.of_functions (.keeps fun _ => rfl)) fun _ _ => rfl

lemma alike_setAll (o : ObjectId) (entries : List (String × Value)) :
    L.Alike Eq (setAll o entries) (setAll o entries) := by
  induction entries with
  | nil => exact L.pure rfl
  | cons e rest ih =>
    exact Congruence.Alike.bindEq (hL.plain (.write (.set o e.1 e.2)) trivial) fun _ => ih

lemma alike_createData (d : Definition C.Body) : L.Alike Eq (createData d) (createData d) := by
  have hnew := hL.plain (.newObject .empty) trivial
  unfold createData
  split
  · exact hnew
  · refine L.bind (hL.factory _) fun r r' hr => ?_
    -- of a failed factory nothing is left, not even its kind
    have hsame : r.toOption = r'.toOption := by
      cases hr with
      | ok h => rw [h]
      | error _ _ => rfl
    rw [hsame]
    split
    · exact L.pure rfl
    · dsimp only
      split
      · exact L.bind (L.report _) fun _ _ _ => hnew
      · exact hnew

lemma alike_renderFragment (hf : f.OwnedBy owners) :
    L.Alike (fun r r' => L.Outcome RenderError.kind Eq r.outcome r'.outcome) (renderFragment f)
      (renderFragment f) := by
  cases f with
  | markup html => exact L.pure (.ok rfl)
  | failure message => exact L.pure (.fail _)
  | body code scope owner =>
    refine L.bind (hL.render _ _ hf) fun r r' hr => ?_
    cases hr with
    | ok h => exact L.pure (.ok h)
    | error _ h => exact L.pure (.error rfl fun hs => by rw [h hs])

lemma alike_newFunction (hcode : code.OwnedBy owners) (name : String) :
    L.Alike Eq (newFunction code name) (newFunction code name) := by
  refine hL.note ⟨fun _ => ⟨rfl, rfl, rfl, rfl, rfl, rfl, rfl⟩, .keeps fun _ => rfl,
    fun _ _ => rfl, ?_⟩ fun _ _ => rfl
  intro s i code' hi
  rw [Array.getElem?_push] at hi
  split at hi
  · cases hi
    exact .inr hcode
  · exact .inl hi

lemma alike_routineOf (d : Definition C.Body) : L.Alike Eq (routineOf d) (routineOf d) := by
  unfold routineOf
  split
  · exact L.pure rfl
  · refine L.bind hL.get ?_
    rintro s _ ⟨-, c, rfl⟩
    refine Congruence.Alike.bindEq (hL.plain (.log _) trivial) fun _ => ?_
    refine Congruence.Alike.bindEq (hL.note (g := fun _ => ()) ?_ fun _ _ => rfl) fun _ =>
      L.pure rfl
    exact .of_functions (.keeps fun _ => rfl)

omit hL in
/-- A likeness that serves templates makes a service under which everything is like itself. -/
def service (hL : L.Serves owners known) : Service C where
  toLikeness := L
  state := Same known
  fragment := Fragment.Same owners
  owner o o' := o = o' ∧ owners o
  hooks := Eq
  body _ := True
  definition _ := True
  writes := True
  get := hL.get
  functions := by
    rintro s _ f f' ⟨hs, c, rfl⟩ hf
    cases hL.rel_iff.mp hf
    cases hcode : s.functions[f.index]? with
    | none => exact .none
    | some code => exact .some (hL.functionCode_iff.mpr ⟨rfl, hL.functions hs hcode⟩)
  stores := by
    rintro s _ id id' ⟨-, c, rfl⟩ hid
    cases hL.rel_iff.mp hid
    cases s.stores[id.index]? with
    | none => exact .none
    | some x => exact .some ⟨hL.rel_iff.mpr rfl, rfl, fun _ _ => trivial⟩
  catalog := by
    rintro s _ ⟨-, c, rfl⟩
    rfl
  registered _ _ := trivial
  services _ := hL.table_iff.mpr rfl
  store _ _ := hL.rel_iff.mpr rfl
  pushed := by
    rintro s _ ⟨-, c, rfl⟩
    rfl
  failure := hL.failure
  live := by
    intro data data' sections sections' hdata hsections
    cases hL.rel_iff.mp hdata
    obtain ⟨rfl, h⟩ := Slots.same_iff.mp hsections
    exact ⟨rfl, hL.live h⟩
  fragment_body := by
    rintro code scope scope' o _ - hs ⟨rfl, ho⟩
    cases hL.scope_eq hs
    exact ⟨rfl, ho⟩
  renderFragment := by
    rintro f _ ⟨rfl, hf⟩
    exact hL.alike_renderFragment hf
  render := by
    rintro r scope scope' o _ - hs ⟨rfl, ho⟩
    cases hL.scope_eq hs
    exact hL.render r scope ho
  invokeFunction := by
    intro b args args' _ hargs
    cases hL.values_iff.mp hargs
    exact hL.applies (hL.invoke b nofun)
  invokeMethod := by
    intro b data data' args args' _ hdata hargs
    cases hL.rel_iff.mp hdata
    cases hL.values_iff.mp hargs
    exact hL.applies (hL.invoke b nofun)
  invokeMutation := by
    intro b data data' v v' _ hdata hv
    cases hL.rel_iff.mp hdata
    cases hL.value_iff.mp hv
    exact hL.applies (hL.invoke b nofun)
  newFunction := by
    intro c c' hc name
    obtain ⟨rfl, howned⟩ := hL.functionCode_iff.mp hc
    exact L.imp (hL.alike_newFunction howned name) fun _ _ => hL.value_iff.mpr
  pushStack name content := by
    refine L.imp (hL.note (g := fun _ => ()) ?_ fun _ _ => rfl) fun _ _ _ => trivial
    exact .of_functions (.pushes name content)
  newHookSet :=
    L.imp (hL.note (.of_functions (.keeps fun _ => rfl)) fun _ _ => rfl) fun _ _ => congrArg some
  setAmbient := by
    rintro h _ rfl
    exact hL.alike_setAmbient h
  addHooks := by
    intro d h h' _ hh
    cases hh
    refine L.imp (hL.note (g := fun _ => ()) ?_ fun _ _ => rfl) fun _ _ _ => trivial
    exact .of_functions (.keeps fun _ => rfl)
  routineOf {d} _ := L.imp (hL.alike_routineOf d) fun _ _ h => ⟨h.symm, fun _ => hL.loops⟩
  methods _ _ _ := trivial
  newHost := by
    intro x x' hx
    obtain rfl : x = x' := by
      rw [hL.same] at hx
      exact (HostObject.rel_same.mp hx).1
    exact L.imp (hL.plain (.newHost x) trivial) fun _ _ h => hL.rel_iff.mpr (congrArg Ref.host h)
  furnish := by
    intro α α' R d o o' h h' f f' _ hdata _ hprops hh hf
    have hsame : o.data = o'.data := by
      generalize o.data = x, o'.data = x' at hdata
      cases hdata with
      | none => rfl
      | some hx =>
        cases hL.rel_iff.mp hx
        rfl
    have hrest : ∀ x, L.Alike R (do let _ ← setAmbient h; setAll x o.props.entries; f x)
        (do let _ ← setAmbient h; setAll x o.props.entries; f' x) := fun x =>
      (hL.alike_setAmbient h).bindEq fun _ => (hL.alike_setAll x _).bindEq fun _ =>
        hf x x (hL.rel_iff.mpr rfl)
    rw [← hh, ← hsame, ← hL.table_iff.mp hprops]
    cases o.data with
    | some x => exact hrest x
    | none => exact (hL.alike_createData d).bindEq hrest
  fill := by
    intro α α' R fields fields' more more' f f' hfields hmore hf
    cases hL.table_iff.mp hfields
    obtain rfl : more = more' := congrArg Table.entries (hL.table_iff (t := ⟨more⟩).mp hmore)
    refine Congruence.Alike.bindEq (hL.plain (.newObject fields) trivial) fun x => ?_
    exact (hL.alike_setAll x more).bindEq fun _ => hf x x (hL.rel_iff.mpr rfl)

end Likeness.Serves

end LiveMarkup
