import LiveMarkup.Routine.Compile
import LiveMarkup.View.Calls

/-!
# Instances

Bringing a definition to life: its data is made, props are written into it, hooks are collected,
and the names that its template sees are put together. Child components, layouts and includes are
fresh instances at every render; nothing of them is kept.
-/

namespace LiveMarkup

structure InstanceOptions where
  props : Table Value := .empty
  attributes : Table Value := .empty
  slots : Slots Owner := .empty
  sections : Slots Owner := .empty
  data : Option ObjectId := none

namespace View

variable {C : Client}

/-! ## Templates -/

def withTemplate (d : Definition C.Body) (text : String) : View C (Definition C.Body) := do
  let s ← exchange fun s => { s with cells := s.cells.push none }
  return { d with source := .template text ⟨s.cells.size⟩ }

def newDefinition (name : String) : View C (Definition C.Body) :=
  withTemplate { name, source := .routine (.fixed "") } ""

/-- What stands in place of a template that fails to compile. -/
def compileErrorText : String :=
  "Error compiling template"

/-- What a template compiles to; a fixed text when it fails. -/
def compileTemplate (text : String) : Routine :=
  match Routine.compile text with
  | .ok r => r
  | .error _ => .fixed compileErrorText

def compileReport (text : String) : List LogLine :=
  match Routine.compile text with
  | .ok _ => []
  | .error _ => [.event .templateFailed]

/-- The routine of a definition, compiled now if it has not been. -/
def routineOf (d : Definition C.Body) : View C Routine := do
  match d.source with
  | .routine r => return r
  | .template text cell =>
    let s ← get
    let compiled := s.cells[cell.index]?.join
    let r := compiled.getD (compileTemplate text)
    Program.perform (.log (if compiled.isNone then compileReport text else []))
    modify fun s => { s with cells := s.cells.setIfInBounds cell.index (some r) }
    return r

/-! ## Hooks -/

def newHookSet : View C HookSetId := do
  let s ← exchange fun s => { s with hookSets := s.hookSets.push {} }
  return ⟨s.hookSets.size⟩

def addHooks (id : HookSetId) (mounted unmounted : List C.Body) (s : ViewState C) :
    ViewState C :=
  { s with
    hookSets := s.hookSets.modify id.index fun h =>
      { mounted := h.mounted ++ mounted, unmounted := h.unmounted ++ unmounted } }

def hooksOf (id : HookSetId) : View C (HookSet C.Body) := do
  let s ← get
  return s.hookSets[id.index]?.getD {}

/-- Sets whose hooks the running factory adds to, and gives the previous set. -/
def setAmbient (id : Option HookSetId) : View C (Option HookSetId) := do
  let s ← exchange fun s => { s with ambient := id }
  return s.ambient

/-- Registers hooks with the instance whose data is being made. Gives whether there is one. -/
def registerHooks (mounted unmounted : List C.Body) : View C Bool := do
  let s ← exchange fun s =>
    match s.ambient with
    | some id => addHooks id mounted unmounted s
    | none => s
  Program.perform (.log (if s.ambient.isSome then [] else [.event .hookOutsideInstance]))
  return s.ambient.isSome

/-! ## Data and names -/

/-- Makes the data of an instance. Only an object can be data; anything else starts empty. -/
def createData (d : Definition C.Body) : View C ObjectId := do
  match d.factory with
  | none => Program.newObject .empty
  | some b =>
    let r ← Program.untracked (S := C.signature) (.invoke b .factory)
    match r.toOption.getD .undefined with
    | .object o => return o
    | v =>
      if !v.isNullish then Program.report .dataNotObject
      Program.newObject .empty

def sectionFunctions : List (String × Fragment Owner) → View C (List (String × Value))
  | [] => return []
  | (name, f) :: rest => do
    let v ← newFunction (.sectionOf f) name
    let vs ← sectionFunctions rest
    return (name, v) :: vs

def boundMethods (data : ObjectId) : List (String × C.Body) → View C (List (String × Value))
  | [] => return []
  | (name, b) :: rest => do
    let v ← newFunction (.method data b) name
    let vs ← boundMethods data rest
    return (name, v) :: vs

def storeNames : View C (List (String × Value)) := do
  let s ← get
  match s.catalog.store.bind fun id => s.stores[id.index]?.map fun store => (id, store) with
  | none => return []
  | some (id, store) =>
    let handle ← Program.newHost (.store id store.state)
    let auth ← Program.newHost (.auth store.state)
    return [("$store", .host handle), ("auth", .host auth)]

/-- The names that every template of an instance sees besides its data. Methods hide helpers, and
the store hides methods. -/
def globalNames (d : Definition C.Body) (data : ObjectId) (o : InstanceOptions) :
    View C (Table Value) := do
  let classNames ← newFunction .classNames "classNames"
  let styleNames ← newFunction .styleNames "styleNames"
  let helpers ← Program.newObject (.ofList [("classNames", classNames), ("styleNames", styleNames)])
  let flags ← Program.newObject (o.slots.map fun _ => .bool true)
  let slot ← newFunction (.slot o.slots) "$slot"
  let sectionEntries ← sectionFunctions o.sections.entries
  let sections ← Program.newObject (.ofList sectionEntries)
  let push ← newFunction .push "$push"
  let stack ← newFunction .stack "$stack"
  let s ← get
  let services ← Program.newObject s.catalog.services
  let attributes ← Program.newHost (.bag o.attributes)
  let escape ← newFunction .escape "e"
  let methods ← boundMethods data d.methods.entries
  let store ← storeNames
  return .ofList <|
    [("$helpers", .object helpers), ("$slots", .object flags), ("$slot", slot),
      ("$sections", .object sections), ("$push", push), ("$stack", stack),
      ("$services", .object services), ("$attributes", .host attributes), ("e", escape)] ++
    methods ++ store

def setAll (o : ObjectId) : List (String × Value) → View C Unit
  | [] => return ()
  | (k, v) :: rest => do
    Program.write (.set o k v)
    setAll o rest

/-- Builds an instance around its data, once the factory has registered its hooks. -/
def assemble (d : Definition C.Body) (o : InstanceOptions) (hooks : HookSetId)
    (previous : Option HookSetId) (data : ObjectId) : View C (Instance C.Body) := do
  let _ ← setAmbient previous
  setAll data o.props.entries
  modify (addHooks hooks d.mounted d.unmounted)
  let globals ← globalNames d data o
  let routine ← routineOf d
  return { definition := d, data, globals, routine, hooks, sections := o.sections }

/-- Brings a definition to life. Hooks that the factory registers come before those of the
definition. -/
def construct (d : Definition C.Body) (o : InstanceOptions) : View C (Instance C.Body) := do
  let hooks ← newHookSet
  let previous ← setAmbient (some hooks)
  let data ← match o.data with
    | some data => pure data
    | none => createData d
  assemble d o hooks previous data

def renderInstance (x : Instance C.Body) : View C (Except RenderError String) :=
  render x.routine { data := x.data, globals := x.globals } (.live x.data x.sections)

def renderChild (d : Definition C.Body) (o : InstanceOptions) :
    View C (Except RenderError String) := do
  let x ← construct d o
  renderInstance x

/-! ## What templates ask for -/

/-- The fragment that shows a failure under some settings. -/
def failureFragment (s : Settings) (kind : DiagnosticKind) (message : String) : String :=
  match kind, s.exposeMessages with
  | .render, true => Diagnostic.box s.renderErrorStyle ("Render Error: " ++ message)
  | .render, false => Diagnostic.box s.renderErrorStyle "Render Error"
  | .component, true => "Error: " ++ message
  | _, true => message
  | _, false => "Error"

def failure (kind : DiagnosticKind) (e : RenderError) : View C Rendered := do
  let s ← get
  return .diagnostic ⟨kind, e.message, failureFragment s.settings kind e.message⟩

/-- Turns the outcome of a child into markup or a diagnostic, and reports a failure. -/
def settle (kind : DiagnosticKind) (event : Event) :
    Except RenderError String → View C Rendered
  | .ok html => return .markup html
  | .error e => do
    Program.report event
    failure kind e

/-- Renders a definition with attributes and slots. Declared props go into its data, and what is
left becomes its attribute bag. -/
def renderDynamic (d : Definition C.Body) (attrs : Table Value) (slots : Slots Owner) :
    View C Rendered := do
  let (props, attributes) := attrs.entries.partition fun e => d.isProp e.1
  let r ← renderChild d { props := ⟨props⟩, attributes := ⟨attributes⟩, slots }
  settle .component .componentFailed r

def missing (event : Event) (what name : String) : View C Rendered := do
  Program.report event
  return .diagnostic (.notFound what name)

def renderComponent (name : String) (attrs : Table Value) (slots : Slots Owner) :
    View C Rendered := do
  let s ← get
  match s.catalog.components.get? name with
  | some d => renderDynamic d attrs slots
  | none => missing .componentMissing "Component" name

def renderLayout (name : String) (sections : Slots Owner) : View C Rendered := do
  let s ← get
  match s.catalog.layouts.get? name with
  | some d =>
    let r ← renderChild d { sections }
    settle .layout .layoutFailed r
  | none => missing .layoutMissing "Layout" name

/-- Renders a view over a new object, with more entries laid over those it starts with. -/
def renderOver (d : Definition C.Body) (entries more : List (String × Value)) :
    View C Rendered := do
  let merged ← Program.newObject ⟨entries⟩
  setAll merged more
  let r ← renderChild d { data := some merged }
  settle .inclusion .includeFailed r

/-- Renders a registered view over a copy of the data, with entries passed to it laid over. -/
def renderInclude (data : ObjectId) (name : String) (passed : Option Value) : View C Rendered := do
  let s ← get
  match s.catalog.views.get? name with
  | some d =>
    let entries ← Program.read (.entries data)
    let more ← match passed with
      | some (.object o) => Program.read (.entries o)
      | _ => pure []
    renderOver d entries more
  | none => missing .viewMissing "View" name

def liveHost (data : ObjectId) (sections : Slots Owner) : Host C.signature Owner where
  self := .live data sections
  component := renderComponent
  layout := renderLayout
  includeView := renderInclude data
  sectionOf := sections.get?
  fragment := renderFragment
  push := pushStack
  stack := stackText
  service name := do
    let s ← get
    return s.catalog.services.get? name
  apply := apply
  invoke := callHost

end View

end LiveMarkup
