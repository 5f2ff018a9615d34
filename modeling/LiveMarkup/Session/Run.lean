import LiveMarkup.Session.Basic

/-!
# Running statements

What each statement does and results in. A statement that fails stops its script. A script that
gives a value back ends there; blocks inside it pass the value on.

Who hears of the failure of a script depends on the occasion: the caller of a function, method or
mutation fails in turn, while effects, hooks and factories note the failure in the log and go on
with `undefined`.
-/

namespace LiveMarkup

inductive Outcome (V : Type) where
  | nothing
  | value (v : V)
  | gaveBack (v : V)
  | optional (v : Option V)
  | flag (b : Bool)
  | count (n : Nat)
  | text (s : String)
  | settings (s : Settings)
  | definition (name : String) (props : List String) (isProp : Bool) (layout : Option String)
  | rendered (r : Rendered)

def Outcome.toValue : Outcome Value → Value
  | .value v | .gaveBack v | .optional (some v) => v
  | _ => .undefined

namespace Session

/-! ## Containers -/

def quietly {α : Type} (p : Attempt α) : Attempt (Outcome Value) := do
  let _ ← p
  return .nothing

def pairs (entries : List (String × Value)) : Attempt (Outcome Value) := do
  let items ← entries.mapM fun e => newList [.text e.1, e.2]
  return .value (← newList items)

def objectAction (env : ScriptEnv) (o : ObjectId) : ObjectAction → Attempt (Outcome Value)
  | .get key => return .value ((← read (.property o key)).getD .undefined)
  | .lookup key => return .optional (← read (.property o key))
  | .has key => return .value (.bool (← read (.property o key)).isSome)
  | .peek key => return .value ((← peek (.property o key)).getD .undefined)
  | .set key e => do quietly (write (.set o key (← evaluate env e)))
  | .remove key => return .optional (← write (.remove o key))
  | .keys => return .value (← newList ((← read (.names o)).map .text))
  | .entries => do pairs (← read (.entries o))
  | .entriesUntracked => do pairs (← peek (.entries o))
  | .copy => return .value (← newObject ⟨← read (.entries o)⟩)

def listAction (env : ScriptEnv) (l : ListId) : ListAction → Attempt (Outcome Value)
  | .get i => return .value (← read (.item l i))
  | .set i e => do quietly (write (.setItem l i (← evaluate env e)))
  | .push e => do quietly (write (.push l (← evaluate env e)))
  | .pop => return .optional (← write (.pop l))
  | .insert i e => do quietly (write (.insertItem l i (← evaluate env e)))
  | .remove i => return .optional (← write (.removeItem l i))
  | .clear => quietly (write (.clear l))
  | .items => return .value (← newList (← read (.items l)))
  | .itemsUntracked => return .value (← newList (← peek (.items l)))

def countOf (env : ScriptEnv) (source : ExprText) : Attempt Nat := do
  let v ← evaluate env source
  match ← toContainer v with
  | .object o => read (.size o)
  | .list l => read (.length l)

def containerAction (c : Container) : ContainerAction → Attempt (Outcome Value)
  | .track key => quietly (order (.track ⟨c, key⟩))
  | .trigger key => quietly (order (.trigger ⟨c, key⟩))
  | .subscribers key => return .count (← order (.subscriberCount ⟨c, key⟩))
  | .hasTarget => return .flag (← order (.hasTarget c))

/-! ## Effects -/

def effectOf (name : String) : Attempt EffectId := do
  match (← get).effects.get? name with
  | some e => return e
  | none => misuse .noEffect

def disposeAny : Option EffectId → Attempt Unit
  | some e => order (.dispose e)
  | none => return ()

def dropEffect (name : String) : Attempt Unit := do
  let s ← get
  modify fun s => { s with effects := s.effects.erase name }
  disposeAny (s.effects.get? name)

def createEffect (env : ScriptEnv) (name : String) (body : Script) : Attempt Unit := do
  let e ← order (.spawn (.invoke (.closure env body) .effect))
  let s ← get
  modify fun s => { s with effects := s.effects.insert name e }
  disposeAny (s.effects.get? name)

def effectAction (name : String) : EffectAction → Attempt (Outcome Value)
  | .run => do quietly (order (.rerun (← effectOf name)))
  | .dispose => do quietly (order (.dispose (← effectOf name)))
  | .isDisposed => return .flag (← order (.isDisposed (← effectOf name)))
  | .drop => quietly (dropEffect name)
  | .dependencies => return .count (← order (.dependencyCount (← effectOf name)))
  | .clearDependencies => do quietly (order (.clearDependencies (← effectOf name)))

def activeName : Attempt Value := do
  match ← order .active with
  | none => return .null
  | some e =>
    let known := (← get).effects.entries.find? (·.2 == e)
    return .text ((known.map Prod.fst).getD "?")

/-! ## Definitions -/

def applyEach {α : Type} (d : Definition SessionBody)
    (f : Definition SessionBody → α → Definition SessionBody) (parts : List α) :
    Definition SessionBody :=
  parts.foldl f d

def buildDefinition (spec : DefinitionSpec Literal Script) : Attempt (Definition SessionBody) := do
  let d ← View.newDefinition (C := client) spec.name
  let d ← match spec.template with
    | some text => View.withTemplate (C := client) d text
    | none => pure d
  let d ← match spec.routine with
    | some source => pure (d.withRoutine (← ofCompile (Routine.compile source)))
    | none => pure d
  let d := applyEach d (fun d text => d.withRoutine (.fixed text)) spec.fixed.toList
  let d := applyEach d (fun d v => d.withFactory (.literal v)) spec.data.toList
  let d := applyEach d (fun d s => d.withFactory (.script s)) spec.factory.toList
  let d := d.withProps spec.props
  let d := applyEach d (fun d m => d.withMethod m.1 (.script m.2)) spec.methods
  let d := applyEach d (fun d s => d.onMounted (.script s)) spec.mounted
  return applyEach d (fun d s => d.onUnmounted (.script s)) spec.unmounted

def definitionOf : DefinitionRef Literal Script → Attempt (Definition SessionBody)
  | .given spec => buildDefinition spec
  | .stored id => do
    match (← get).definitions.get? id with
    | some d => return d
    | none => misuse (.noDefinition id)

def modifyCatalog (f : Catalog SessionBody → Catalog SessionBody) : Act Unit :=
  modifyView fun s => { s with catalog := f s.catalog }

def register (role : Role) (name : String) (d : Definition SessionBody) : Act Unit :=
  modifyCatalog fun c =>
    match role with
    | .component => { c with components := c.components.insert name d }
    | .layout => { c with layouts := c.layouts.insert name d }
    | .view => { c with views := c.views.insert name d }

def describe (d : Definition SessionBody) (prop : String) : Act (Outcome Value) := do
  let r ← View.routineOf (C := client) d
  return .definition d.name d.props (d.isProp prop) r.layout

/-! ## Stores and settings -/

def createStore (state : Literal) (mutations : List (String × Script)) : Act Unit := do
  let v ← build state
  let id ← View.newStore (C := client) v (.ofList (mutations.map fun m => (m.1, .script m.2)))
  modify fun s => { s with store := some id }
  modifyCatalog fun c => { c with store := some id }

def storeOf : Attempt StoreId := do
  match (← get).store with
  | some id => return id
  | none => misuse .noStore

def storeState : Attempt Value := do
  let id ← storeOf
  match (← viewState).stores[id.index]? with
  | some store => return .object store.state
  | none => misuse .noStore

def installSettings (source : String) : Attempt Settings := do
  match Settings.parse source with
  | .error e => throw (.view (.settings e))
  | .ok settings =>
    order (.setMaxDepth settings.maxEffectDepth)
    modifyView fun s => { s with settings }
    return settings

/-! ## Instances and targets -/

/-- The instance of a name; inside a hook, `self` is the instance of the hook. -/
def instanceOf (env : ScriptEnv) (id : String) : Attempt InstanceId := do
  match env.self, id with
  | some i, "self" => return i
  | _, _ =>
    match (← get).instances.get? id with
    | some i => return i
    | none => misuse .noInstance

def buildOptions (spec : OptionsSpec Literal) : Act InstanceOptions := do
  let props ← buildEntries spec.props
  let attributes ← buildEntries spec.attributes
  let data ← match spec.data with
    | some v => object? <$> build v
    | none => pure none
  return {
    props := .ofList props
    attributes := .ofList attributes
    slots := .ofList spec.slots
    sections := .ofList spec.sections
    data }

def createInstance (id : String) (d : Definition SessionBody) (spec : OptionsSpec Literal) :
    Act Unit := do
  let o ← buildOptions spec
  let x ← View.construct (C := client) d o
  let i ← View.keep (C := client) x
  let s ← get
  modify fun s => { s with instances := s.instances.insert id i }
  match s.instances.get? id with
  | some previous => View.release (C := client) previous
  | none => return ()

def targetOf (selector : String) : Attempt TargetId := do
  match ← View.target? (C := client) selector with
  | some t => return t
  | none => misuse .noTarget

def dropInstance (id : String) (i : InstanceId) : Act Unit := do
  modify fun s => { s with instances := s.instances.erase id }
  View.release (C := client) i

def whileBusy {α : Type} (env : ScriptEnv) (id : String) (p : InstanceId → Act α) : Attempt α := do
  let i ← instanceOf env id
  (View.during (C := client) i (p i) : Act α)

def instanceAction (env : ScriptEnv) (id : String) : InstanceAction → Attempt (Outcome Value)
  | .drop => do quietly (dropInstance id (← instanceOf env id))
  | .render => return .rendered (← whileBusy env id (View.renderTop (C := client)))
  | .call method args => do
    let values ← evaluateAll env args
    return .value (← ofView (← whileBusy env id (View.callMethod (C := client) · method values)))
  | .data => do
    match ← View.instance? (C := client) (← instanceOf env id) with
    | some x => return .value (.object x.data)
    | none => misuse .noInstance
  | .isMounted => do
    let x ← View.instance? (C := client) (← instanceOf env id)
    return .value (.bool (x.any (·.target.isSome)))
  | .mount selector => do
    quietly (ofView (← whileBusy env id (View.mount (C := client) · selector)))
  | .mountTarget selector => do
    let i ← instanceOf env id
    let t ← targetOf selector
    quietly (View.during (C := client) i (View.mountTarget i t) : Act Unit)
  | .unmount => quietly (whileBusy env id (View.unmount (C := client)))

def targetAction (env : ScriptEnv) (selector : String) : TargetAction → Attempt (Outcome Value)
  | .create => do
    let _ ← View.newTarget (C := client) selector
    quietly (modify fun s => { s with shown := s.shown.erase selector })
  | .click i => do
    let t ← targetOf selector
    quietly (ofView (← View.dispatch (C := client) t .click i .undefined))
  | .input i e => do
    let v ← evaluate env e
    let t ← targetOf selector
    quietly (ofView (← View.dispatch (C := client) t .model i v))
  | .content => do
    let t ← targetOf selector
    return .text ((← viewState).targets[t.index]?.getD {}).content

def stackAction : StackAction → Attempt (Outcome Value)
  | .push name text => quietly (View.pushStack (C := client) name text)
  | .read name => return .text (← View.stackText (C := client) name)
  | .reset => quietly (View.resetStacks (C := client))

/-! ## Statements -/

def ofBlock : Option Value → Outcome Value
  | some v => .gaveBack v
  | none => .nothing

/-- Runs a block on its own, with another effect or none as the running one. -/
def runBlock (e : Option EffectId) (env : ScriptEnv) (body : Script) : Attempt (Outcome Value) :=
  ofBlock <$> ExceptT.mk (order (.within e (.task (.block env body))))

def execSimple (env : ScriptEnv) : Statement → Attempt (Outcome Value)
  | .value name v => do quietly (setVar name (← build v))
  | .assign name e => do quietly (setVar name (← evaluate env e))
  | .forget name => quietly (modify fun s => { s with vars := s.vars.erase name })
  | .eval e => .value <$> evaluate env e
  | .log e => do
    let s ← View.display (C := client) (← evaluate env e)
    quietly (order (.log [.note s]))
  | .json e => do
    match ← read (.json (← evaluate env e)) with
    | .ok j => return .text j.render
    | .error e => throw (.eval (.value e))
  | .giveBack e => .gaveBack <$> evaluate env e
  | .fail e => throw (.eval (.value e))
  | .object target action => do objectAction env (← objectOf env target) action
  | .list target action => do listAction env (← listOf env target) action
  | .length target => return .value (.ofNat (← countOf env target))
  | .isEmpty target => return .value (.bool ((← countOf env target) == 0))
  | .container target action => do containerAction (← containerOf env target) action
  | .newEffect name body => quietly (createEffect env name body)
  | .effect name action => effectAction name action
  | .untracked body => runBlock none env body
  | .asEffect name body => do runBlock (some (← effectOf name)) env body
  | .activeEffect => .value <$> activeName
  | .maxDepth => return .count (← order .maxDepth)
  | .setMaxDepth n => quietly (order (.setMaxDepth n))
  | .define id d => do
    let d ← definitionOf d
    quietly (modify fun s => { s with definitions := s.definitions.insert id d })
  | .register role name d => do quietly (register role name (← definitionOf d))
  | .service name v => do
    let x ← build v
    quietly (modifyCatalog fun c => { c with services := c.services.insert name x })
  | .resetCatalog => quietly (modifyCatalog fun _ => {})
  | .store state mutations => quietly (createStore state mutations)
  | .commit mutation payload => do
    let id ← storeOf
    let v ← evaluate env payload
    quietly (ofView (← View.commit (C := client) id mutation v))
  | .storeState => .value <$> storeState
  | .settings source => .settings <$> installSettings source
  | .describe d prop => do describe (← definitionOf d) prop
  | .newInstance id d options => do quietly (createInstance id (← definitionOf d) options)
  | .onInstance id action => instanceAction env id action
  | .renderDynamic d attrs slots => do
    let d ← definitionOf d
    let attrs ← buildEntries attrs
    return .rendered (← View.renderDynamic (C := client) d (.ofList attrs) (.ofList slots))
  | .onMounted body =>
    return .value (.bool (← View.registerHooks (C := client) [.closure env body] []))
  | .onUnmounted body =>
    return .value (.bool (← View.registerHooks (C := client) [] [.closure env body]))
  | .hasCurrent => return .value (.bool (← viewState).ambient.isSome)
  | .target selector action => targetAction env selector action
  | .stack action => stackAction action
  | .unknown name => misuse (.noStatement name)
  | .bind _ _ | .branch _ _ _ => return .nothing

mutual

def exec (env : ScriptEnv) : Statement → Attempt (Outcome Value)
  | .bind name s => do quietly (setVar name (← exec env s).toValue)
  | .branch condition yes no => do
    let v ← evaluate env condition
    if v.isTruthy then ofBlock <$> execAll env yes else ofBlock <$> execAll env no
  | s => execSimple env s

def execAll (env : ScriptEnv) : List Statement → Attempt (Option Value)
  | [] => return none
  | s :: rest => do
    match ← exec env s with
    | .gaveBack v => return some v
    | _ => execAll env rest

end

/-! ## Code -/

def occasionEnv : Invocation → Act ScriptEnv
  | .function args => return { locals := [("args", ← newList args)] }
  | .method data args => return { locals := [("data", .object data), ("args", ← newList args)] }
  | .hook i => do
    let x ← View.instance? (C := client) i
    return {
      locals := (x.map fun x => ("data", .object x.data)).toList
      self := some i }
  | .mutation state payload =>
    return { locals := [("state", .object state), ("payload", payload)] }
  | .factory | .effect => return {}

def arguments : Invocation → List Value
  | .function args | .method _ args => args
  | _ => []

def reportsToCaller : Invocation → Bool
  | .function _ | .method _ _ | .mutation _ _ => true
  | .factory | .hook _ | .effect => false

/-- Runs a script as code: what it gives back is its result. -/
def runScript (occasion : Invocation) (env : ScriptEnv) (s : Script) :
    Act (Except ValueError Value) := do
  match ← (execAll env s).run with
  | .ok v => return .ok (v.getD .undefined)
  | .error f =>
    if reportsToCaller occasion then return .error f.toValueError
    else
      order (.log [.note f.line])
      return .ok .undefined

def invoke (b : SessionBody) (occasion : Invocation) : Act (Except ValueError Value) := do
  match b with
  | .arguments => return .ok (← newList (arguments occasion))
  | .first => return .ok ((arguments occasion).headD .undefined)
  | .constant v => return .ok v
  | .fail e => return .error e
  | .literal v => return .ok (← build v)
  | .script s => runScript occasion (← occasionEnv occasion) s
  | .closure env s => runScript occasion env s

def runTask : SessionTask → Act (Except Failure (Option Value))
  | .block env s => (execAll env s).run
  | .expression env e => (some <$> evaluate env e).run

def behaviour : Behaviour client where
  invoke := invoke
  task := runTask

end Session

end LiveMarkup
