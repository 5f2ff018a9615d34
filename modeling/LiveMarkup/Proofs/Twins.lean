import LiveMarkup.Proofs.Serving

/-!
# Twin runs

Two runs of one program that start in different worlds are twins when they perform the same
operations, up to the names of what was created. Programs that only look, build and call, and
decide by nothing but what they were told, are twins as long as they are told the same.
`Program.Twin` says which pairs of operations are allowed, and which pairs of replies have to be
reckoned with.

Rendering writes in one place only, where props are stored into data that was made a moment ago. So
a pair of programs comes with the set of objects that nobody has looked at since they were made, and
only these may be written to.
-/

namespace LiveMarkup

open Program ViewState

/-! ## What is agreed upon -/

/-- What an application promises about its code, and what is registered. -/
structure Terms (C : Client) where
  names : C.Body → Set Ref
  makers : Set C.Body
  /-- Bodies that are registered as hooks while data is made. -/
  hooks : Set C.Body
  catalog : Catalog C.Body

/-- Which names of two runs correspond. -/
structure Twins (T : Terms C) extends Naming where
  /-- Names of what the first run has made itself. -/
  own : Set Ref
  calls : Prop

variable {T : Terms C}

def Twins.Fixes (τ : Twins T) (b : C.Body) : Prop :=
  ∀ a ∈ T.names b, τ.rel a a

abbrev Twins.value (τ : Twins T) : Value → Value → Prop :=
  Value.Rel τ.toNaming

/-! ## Scopes, fragments and owners -/

/-- Scopes that differ in names at most. What `loop` stands for was made by the run itself. -/
structure Scope.Rel (τ : Twins T) (s s' : Scope) : Prop where
  data : τ.rel (.object s.data) (.object s'.data)
  globals : s.globals.Rel τ.value s'.globals
  locals : List.Forall₂ (Table.Rel τ.value) s.locals s'.locals
  loop : ∀ o, s.local? "loop" = some (.object o) → .object o ∈ τ.own

/-- Preview kits that differ in names at most. -/
structure PreviewKit.Rel (τ : Twins T) (k k' : PreviewKit) : Prop where
  layouts : k'.layouts = k.layouts
  loopFree : ∀ e ∈ k.layouts.entries, e.2.LoopFree
  services : k.services.Rel τ.value k'.services
  globals : k.globals.Rel τ.value k'.globals
  broken : k'.broken = k.broken

mutual

/-- Fragments that differ in names at most. -/
inductive Fragment.Rel (τ : Twins T) : Fragment Owner → Fragment Owner → Prop
  | markup (html : String) : Fragment.Rel τ (.markup html) (.markup html)
  | failure (message : String) : Fragment.Rel τ (.failure message) (.failure message)
  | body (hfree : bodyBindsLoop code = false) (hscope : Scope.Rel τ scope scope')
      (howner : Owner.Rel τ owner owner') :
      Fragment.Rel τ (.body code scope owner) (.body code scope' owner')

/-- Owners that differ in names at most. -/
inductive Owner.Rel (τ : Twins T) : Owner → Owner → Prop
  | live (hdata : τ.rel (.object data) (.object data'))
      (hsections : Fragments.Rel τ sections.entries sections'.entries) :
      Owner.Rel τ (.live data sections) (.live data' sections')
  | preview (hkit : PreviewKit.Rel τ kit kit')
      (hsections : Fragments.Rel τ sections.entries sections'.entries) :
      Owner.Rel τ (.preview kit sections) (.preview kit' sections')

/-- Fragments by name that differ in names at most. -/
inductive Fragments.Rel (τ : Twins T) :
    List (String × Fragment Owner) → List (String × Fragment Owner) → Prop
  | nil : Fragments.Rel τ [] []
  | cons (hf : Fragment.Rel τ f f') (hrest : Fragments.Rel τ rest rest') :
      Fragments.Rel τ ((name, f) :: rest) ((name, f') :: rest')

end

lemma fragments_rel_iff : Fragments.Rel τ l l' ↔ List.Forall₂ (EntryRel (Fragment.Rel τ)) l l' := by
  constructor
  · intro h
    induction l generalizing l' with
    | nil =>
      cases h
      exact .nil
    | cons e rest ih =>
      cases h with
      | cons hf hrest => exact .cons ⟨rfl, hf⟩ (ih hrest)
  · intro h
    induction h using entries_induction with
    | nil => exact .nil
    | cons name hf _ ih => exact .cons hf ih

/-! ## Functions, code and state -/

/-- The code of functions that differ in names at most. -/
abbrev FunctionCode.Rel (τ : Twins T) : FunctionCode C.Body → FunctionCode C.Body → Prop :=
  FunctionCode.Alike τ.toNaming (Fragment.Rel τ) τ.Fixes

/-- Occasions of templates that differ in names at most. -/
inductive Invocation.Rel (τ : Twins T) : Invocation → Invocation → Prop
  | function (h : List.Forall₂ τ.value args args') : Rel τ (.function args) (.function args')
  | method (hdata : τ.rel (.object data) (.object data')) (h : List.Forall₂ τ.value args args') :
      Rel τ (.method data args) (.method data' args')
  | mutation {state state' : ObjectId} {payload payload' : Value}
      (hstate : τ.rel (.object state) (.object state')) (h : τ.value payload payload') :
      Rel τ (.mutation state payload) (.mutation state' payload')

/-- Code of templates that differs in names at most. -/
inductive Code.Rel (τ : Twins T) : Code C → Code C → Prop
  | invoke (hb : τ.Fixes b) (ho : Invocation.Rel τ o o') : Rel τ (.invoke b o) (.invoke b o')
  | render (hfree : r.LoopFree) (hscope : Scope.Rel τ scope scope')
      (howner : Owner.Rel τ owner owner') : Rel τ (.render r scope owner) (.render r scope' owner')

def Code.ReplyRel (τ : Twins T) : (c c' : Code C) → c.Reply → c'.Reply → Prop
  | .invoke _ _, .invoke _ _ => ExceptRel τ.value
  | .render _ _ _, .render _ _ _ => Eq
  | _, _ => fun _ _ => False

/-- Stores that differ in names at most. -/
structure Store.Rel (τ : Twins T) (x x' : Store C.Body) : Prop where
  state : τ.rel (.object x.state) (.object x'.state)
  mutations : x'.mutations = x.mutations
  fixes : ∀ e ∈ x.mutations.entries, τ.Fixes e.2

/-- A definition is registered, under whatever name. -/
inductive Catalog.Has (c : Catalog C.Body) (d : Definition C.Body) : Prop
  | component (h : (name, d) ∈ c.components.entries)
  | layout (h : (name, d) ∈ c.layouts.entries)
  | view (h : (name, d) ∈ c.views.entries)

/-- Cells of registered templates that are filled hold what the templates compile to. -/
def Terms.Compiled (T : Terms C) (s : ViewState C) : Prop :=
  ∀ {d text cell r}, T.catalog.Has d → d.source = .template text cell →
    s.cells[cell.index]?.join = some r → r = View.compileTemplate text

/-- States that show the same to templates, up to names. As many functions have been made since
then in both. -/
structure ViewState.Rel (τ : Twins T) (s s' : ViewState C) : Prop where
  functions : ∀ {f f'}, τ.rel (.function f) (.function f') →
    Option.Rel (FunctionCode.Rel τ) s.functions[f.index]? s'.functions[f'.index]?
  offset : ∀ {f f'}, τ.rel (.function f) (.function f') →
    ∀ k, f.index = s.functions.size + k ↔ f'.index = s'.functions.size + k
  stores : ∀ {id id'}, τ.rel (.store id) (.store id') →
    Option.Rel (Store.Rel τ) s.stores[id.index]? s'.stores[id'.index]?
  catalog : s.catalog = T.catalog ∧ s'.catalog = T.catalog
  settings : s'.settings = s.settings
  pushed : s'.pushed = s.pushed
  compiled : T.Compiled s ∧ T.Compiled s'

/-- What templates leave as it is: they may add functions, fill cells, push to stacks and collect
hooks. -/
structure ViewState.Keeps (T : Terms C) (s s' : ViewState C) : Prop where
  functions : ∀ i < s.functions.size, s'.functions[i]? = s.functions[i]?
  more : s.functions.size ≤ s'.functions.size
  instances : s'.instances = s.instances
  catalog : s'.catalog = s.catalog
  stores : s'.stores = s.stores
  settings : s'.settings = s.settings
  targets : s'.targets = s.targets
  document : s'.document = s.document
  client : s'.client = s.client
  cells : ∀ (c : Nat) r, s.cells[c]?.join = some r → s'.cells[c]?.join = some r
  hooks : ∀ h ∈ s'.hookSets, ∀ b, b ∈ h.mounted ∨ b ∈ h.unmounted →
    b ∈ T.hooks ∨ ∃ h0 ∈ s.hookSets, b ∈ h0.mounted ∨ b ∈ h0.unmounted

/-- Changes that two runs may make to their states: the results are the same up to names, and as
many functions have been added. -/
structure ViewState.Change (τ : Twins T) (s s' x x' : ViewState C) : Prop where
  rel : ViewState.Rel τ x x'
  keeps : Keeps T s x
  keeps' : Keeps T s' x'
  added : x.functions.size + s'.functions.size = x'.functions.size + s.functions.size

/-! ## More names -/

/-- Whatever corresponds does so in the second too. -/
structure Twins.Le (τ σ : Twins T) : Prop where
  rel : ∀ {a b}, τ.rel a b → σ.rel a b
  own : τ.own ⊆ σ.own

section Mono

variable {τ : Twins T}

lemma Twins.Le.value (hle : τ.Le σ) (h : τ.value v v') : σ.value v v' :=
  h.mono hle.rel

lemma Twins.Fixes.mono (h : τ.Fixes b) (hle : τ.Le σ) : σ.Fixes b :=
  fun a ha => hle.rel (h a ha)

lemma Scope.Rel.mono (h : Scope.Rel τ s s') (hle : τ.Le σ) : Scope.Rel σ s s' where
  data := hle.rel h.data
  globals := h.globals.imp fun _ _ => hle.value
  locals := h.locals.imp fun _ _ ht => ht.imp fun _ _ => hle.value
  loop o ho := hle.own (h.loop o ho)

lemma PreviewKit.Rel.mono (h : PreviewKit.Rel τ k k') (hle : τ.Le σ) : PreviewKit.Rel σ k k' where
  layouts := h.layouts
  loopFree := h.loopFree
  services := h.services.imp fun _ _ => hle.value
  globals := h.globals.imp fun _ _ => hle.value
  broken := h.broken

mutual

lemma Fragment.Rel.mono (h : Fragment.Rel τ f f') (hle : τ.Le σ) : Fragment.Rel σ f f' := by
  cases h with
  | markup html => exact .markup html
  | failure message => exact .failure message
  | body hfree hscope howner => exact .body hfree (hscope.mono hle) (howner.mono hle)

lemma Owner.Rel.mono (h : Owner.Rel τ o o') (hle : τ.Le σ) : Owner.Rel σ o o' := by
  cases h with
  | live hdata hsections => exact .live (hle.rel hdata) (hsections.mono hle)
  | preview hkit hsections => exact .preview (hkit.mono hle) (hsections.mono hle)

lemma Fragments.Rel.mono (h : Fragments.Rel τ l l') (hle : τ.Le σ) : Fragments.Rel σ l l' := by
  cases h with
  | nil => exact .nil
  | cons hf hrest => exact .cons (hf.mono hle) (hrest.mono hle)

end

lemma FunctionCode.Rel.mono (h : FunctionCode.Rel τ x x') (hle : τ.Le σ) :
    FunctionCode.Rel σ x x' := by
  cases h with
  | body hb => exact .body (hb.mono hle)
  | method hdata hb => exact .method (hle.rel hdata) (hb.mono hle)
  | classNames => exact .classNames
  | styleNames => exact .styleNames
  | escape => exact .escape
  | slot h => exact .slot (h.imp fun _ _ hf => hf.mono hle)
  | sectionOf h => exact .sectionOf (h.mono hle)
  | push => exact .push
  | stack => exact .stack

lemma Store.Rel.mono (h : Store.Rel τ x x') (hle : τ.Le σ) : Store.Rel σ x x' where
  state := hle.rel h.state
  mutations := h.mutations
  fixes e he := (h.fixes e he).mono hle

lemma Invocation.Rel.mono (h : Invocation.Rel τ o o') (hle : τ.Le σ) : Invocation.Rel σ o o' := by
  cases h with
  | function h => exact .function (h.imp fun _ _ => hle.value)
  | method hdata h => exact .method (hle.rel hdata) (h.imp fun _ _ => hle.value)
  | mutation hstate h => exact .mutation (hle.rel hstate) (hle.value h)

lemma Code.Rel.mono (h : Code.Rel τ c c') (hle : τ.Le σ) : Code.Rel σ c c' := by
  cases h with
  | invoke hb ho => exact .invoke (hb.mono hle) (ho.mono hle)
  | render hfree hscope howner => exact .render hfree (hscope.mono hle) (howner.mono hle)

end Mono

/-! ## Operations -/

/-- Pairs of operations that twins perform. The set holds the objects that nobody has looked at
since they were made. -/
inductive Op.Twin (τ : Twins T) (V : Set ObjectId) : C.Op → C.Op → Prop
  | read (hq : q.Rel τ.toNaming q') : Twin τ V (.read q) (.read q')
  /-- Looking at what the run has made itself needs no dependency. -/
  | peek (ho : τ.rel (.object o) (.object o')) (hown : .object o ∈ τ.own) (name : String) :
      Twin τ V (.peek (.property o name)) (.peek (.property o' name))
  | write (hV : o ∈ V) (ho : τ.rel (.object o) (.object o')) (name : String) (hv : τ.value v v') :
      Twin τ V (.write (.set o name v)) (.write (.set o' name v'))
  | newObject (h : fields.Rel τ.value fields') : Twin τ V (.newObject fields) (.newObject fields')
  | newList (h : List.Forall₂ τ.value items items') : Twin τ V (.newList items) (.newList items')
  | newHost (h : HostObject.Rel τ.toNaming x x') : Twin τ V (.newHost x) (.newHost x')
  | call (hcalls : τ.calls) (hc : Code.Rel τ c c') : Twin τ V (.call c) (.call c')
  | factory (hcalls : τ.calls) (hb : b ∈ T.makers) :
      Twin τ V (.within none (.invoke b .factory)) (.within none (.invoke b .factory))
  | log (lines lines' : List LogLine) : Twin τ V (.log lines) (.log lines')
  | get : Twin τ V .get .get
  | modify (h : ∀ s s', ViewState.Rel τ s s' → Change τ s s' (f s) (f' s')) :
      Twin τ V (.modify f) (.modify f')

/-- Pairs of replies to them, and the objects that are still untouched afterwards. -/
def Op.TwinReply (τ : Twins T) (V : Set ObjectId) :
    (op op' : C.Op) → op.Reply → op'.Reply → Set ObjectId → Prop
  | .read q, .read q', a, a', V' => q.AnswerRel τ.toNaming q' a a' ∧ V' = ∅
  | .peek q, .peek q', a, a', V' => q.AnswerRel τ.toNaming q' a a' ∧ V' = V
  | .write (.set _ _ _), .write (.set _ _ _), _, _, V' => V' = V
  | .newObject _, .newObject _, o, o', V' =>
    τ.rel (.object o) (.object o') ∧ .object o ∈ τ.own ∧ V' = insert o V
  | .newList _, .newList _, l, l', V' => τ.rel (.list l) (.list l') ∧ V' = V
  | .newHost _, .newHost _, i, i', V' => τ.rel (.host i) (.host i') ∧ V' = V
  | .call c, .call c', r, r', V' => Code.ReplyRel τ c c' r r' ∧ V' = ∅
  | .within none (.invoke _ .factory), .within none (.invoke _ .factory), r, r', V' =>
    ExceptRel τ.value r r' ∧ V' = {o | r = .ok (.object o)}
  | .log _, .log _, _, _, V' => V' = V
  | .get, .get, s, s', V' => ViewState.Rel τ s s' ∧ V' = V
  | .modify f, .modify _, s, s', V' => ViewState.Rel τ s s' ∧
    (∀ k, s.functions.size + k < (f s).functions.size →
      τ.rel (.function ⟨s.functions.size + k⟩) (.function ⟨s'.functions.size + k⟩)) ∧ V' = V
  | _, _, _, _, _ => False

/-- Programs that perform the same operations up to names, whatever they are told alike. Their
results satisfy `R` with the objects that are untouched in the end. -/
inductive Program.Twin (τ : Twins T) {α α' : Type} (R : Set ObjectId → α → α' → Prop) :
    Set ObjectId → View C α → View C α' → Prop
  | done (h : R V a a') : Twin τ R V (done a) (done a')
  | step {V : Set ObjectId} {op op' : C.Op} {next : op.Reply → View C α}
      {next' : op'.Reply → View C α'} (hop : op.Twin τ V op')
      (rest : ∀ r r' V', op.TwinReply τ V op' r r' V' → Twin τ R V' (next r) (next' r')) :
      Twin τ R V (step op next) (step op' next')

lemma Program.Twin.bind (hp : Twin τ R V p p')
    (hf : ∀ V a a', R V a a' → Twin τ Q V (f a) (f' a')) : Twin τ Q V (p >>= f) (p' >>= f') := by
  induction hp with
  | done h => exact hf _ _ _ h
  | step hop _ ih => exact .step hop ih

/-! ## Programs that are alike -/

def Program.Alike (τ : Twins T) {α α' : Type} (R : α → α' → Prop) (p : View C α)
    (p' : View C α') : Prop :=
  ∀ V, Twin τ (fun _ => R) V p p'

namespace Program.Alike

variable {R : α → α' → Prop}

lemma pure (h : R a a') : Alike τ R (Pure.pure a : View C α) (Pure.pure a' : View C α') :=
  fun _ => .done h

lemma bind (hp : Alike τ R p p') (hf : ∀ a a', R a a' → Alike τ Q (f a) (f' a')) :
    Alike τ Q (p >>= f) (p' >>= f') :=
  fun V => (hp V).bind fun V a a' h => hf a a' h V

lemma perform (op op' : C.Op) {R : op.Reply → op'.Reply → Prop}
    (hop : ∀ V, op.Twin τ V op') (h : ∀ V r r' V', op.TwinReply τ V op' r r' V' → R r r') :
    Alike τ R (perform op) (perform op') :=
  fun V => .step (hop V) fun r r' V' hr => .done (h V r r' V' hr)

lemma read {q q' : Query} (hq : q.Rel τ.toNaming q') :
    Alike τ (q.AnswerRel τ.toNaming q') (read q) (read q') :=
  perform (.read q) (.read q') (fun _ => .read hq) fun _ _ _ _ h => h.1

lemma peek {o o' : ObjectId} (ho : τ.rel (.object o) (.object o')) (hown : .object o ∈ τ.own)
    (name : String) : Alike τ (Option.Rel τ.value) (peek (.property o name))
      (peek (.property o' name)) :=
  perform (.peek (.property o name)) (.peek (.property o' name)) (fun _ => .peek ho hown name)
    fun _ _ _ _ h => h.1

lemma newObject {fields fields' : Table Value} (h : fields.Rel τ.value fields') :
    Alike τ (fun o o' => τ.rel (.object o) (.object o') ∧ .object o ∈ τ.own)
      (newObject fields) (newObject fields') :=
  perform (.newObject fields) (.newObject fields') (fun _ => .newObject h)
    fun _ _ _ _ h => ⟨h.1, h.2.1⟩

lemma newList (h : List.Forall₂ τ.value items items') :
    Alike τ (fun l l' => τ.rel (.list l) (.list l')) (newList items) (newList items') :=
  perform (.newList items) (.newList items') (fun _ => .newList h) fun _ _ _ _ h => h.1

lemma newHost (h : HostObject.Rel τ.toNaming x x') :
    Alike τ (fun i i' => τ.rel (.host i) (.host i')) (newHost x) (newHost x') :=
  perform (.newHost x) (.newHost x') (fun _ => .newHost h) fun _ _ _ _ h => h.1

lemma call (hc : τ.calls) {c c' : Code C} (h : Code.Rel τ c c') :
    Alike τ (Code.ReplyRel τ c c') (call (S := C.signature) c)
      (call (S := C.signature) c') :=
  perform (.call c) (.call c') (fun _ => .call hc h) fun _ _ _ _ h => h.1

lemma log (lines lines' : List LogLine) :
    Alike τ (fun _ _ => True) (Program.perform (.log lines)) (Program.perform (.log lines')) :=
  perform (.log lines) (.log lines') (fun _ => .log lines lines') fun _ _ _ _ _ => trivial

lemma report (e : Event) : Alike τ (fun _ _ => True) (Program.report e) (Program.report e) :=
  log _ _

lemma get : Alike τ (Rel τ) View.get View.get :=
  perform .get .get (fun _ => .get) fun _ _ _ _ h => h.1

lemma exchange {f f' : ViewState C → ViewState C}
    (h : ∀ s s', Rel τ s s' → Change τ s s' (f s) (f' s')) :
    Alike τ (fun s s' => Rel τ s s' ∧ ∀ k, s.functions.size + k < (f s).functions.size →
      τ.rel (.function ⟨s.functions.size + k⟩) (.function ⟨s'.functions.size + k⟩))
      (View.exchange f) (View.exchange f') :=
  perform (.modify f) (.modify f') (fun _ => .modify h) fun _ _ _ _ h => ⟨h.1, h.2.1⟩

end Program.Alike

/-! ## The likeness of twins -/

/-- Twins are alike up to names, and their failures are equal. -/
def Twins.likeness (τ : Twins T) : Likeness C.signature where
  toNaming := τ.toNaming
  own := τ.own
  strict := True
  loops := False
  own_of_loops := False.elim
  Alike := Program.Alike τ
  pure := .pure
  bind := .bind
  read := .read
  peek := .peek
  newObject := .newObject
  newList := .newList
  report := .report

section Likeness

variable {τ : Twins T}

lemma Scope.rel_iff_alike : Scope.Rel τ s s' ↔ Scope.Alike τ.likeness s s' :=
  ⟨fun h => ⟨h.data, h.globals, h.locals, h.loop⟩, fun h => ⟨h.data, h.globals, h.locals, h.loop⟩⟩

lemma Twins.outcome_iff : τ.likeness.Outcome kind R r r' ↔ ExceptRel R r r' := by
  constructor
  · rintro (h | ⟨_, h⟩)
    · exact .ok h
    · obtain rfl := h trivial
      exact .error _
  · rintro (h | e)
    · exact .ok h
    · exact .error rfl fun _ => rfl

end Likeness

end LiveMarkup
