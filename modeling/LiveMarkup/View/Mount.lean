import LiveMarkup.View.Instance

/-!
# Mounting

A mounted instance renders inside an effect, so that every change to what it read renders it again
and writes its target anew. Interactions are attached to the target as handlers, which are data: a
click names a method, a field names the path it writes to.
-/

namespace LiveMarkup

namespace View

variable {C : Client}

/-! ## Instances -/

def keep (x : Instance C.Body) : View C InstanceId := do
  let s ← exchange fun s => { s with instances := s.instances.push x }
  return ⟨s.instances.size⟩

def instance? (i : InstanceId) : View C (Option (Instance C.Body)) := do
  let s ← get
  return s.instances[i.index]?

def modifyInstance (i : InstanceId) (f : Instance C.Body → Instance C.Body) : View C Unit :=
  modify fun s => { s with instances := s.instances.modify i.index f }

def endMountEffect (i : InstanceId) : View C Unit := do
  let x ← instance? i
  match x.bind (·.mountEffect) with
  | some e =>
    modifyInstance i fun x => { x with mountEffect := none }
    Program.perform (.dispose e)
  | none => return ()

/-- Ends what is left of an instance that is no longer alive. -/
def retire (i : InstanceId) : View C Unit := do
  match ← instance? i with
  | some x => if x.isAlive then return () else endMountEffect i
  | none => return ()

/-- Runs an activity of an instance. An instance that is let go of meanwhile lives on until the
activity is over. -/
def during {α : Type} (i : InstanceId) (p : View C α) : View C α := do
  modifyInstance i fun x => { x with busy := x.busy + 1 }
  let a ← p
  modifyInstance i fun x => { x with busy := x.busy - 1 }
  retire i
  return a

/-- Lets go of an instance. No hooks run. -/
def release (i : InstanceId) : View C Unit := do
  modifyInstance i fun x => { x with released := true }
  retire i

def callMethod (i : InstanceId) (name : String) (args : List Value) :
    View C (Except ViewError Value) := do
  match ← instance? i with
  | none => return .error (.methodNotFound name)
  | some x =>
    match x.definition.methods.get? name with
    | none => return .error (.methodNotFound name)
    | some b =>
      match ← invoke b (.method x.data args) with
      | .ok v => return .ok v
      | .error e => return .error (.value e)

/-! ## Targets -/

/-- Adds an empty target to the document; it replaces the one with the same selector. -/
def newTarget (selector : String) : View C TargetId := do
  let s ← exchange fun s =>
    { s with
      targets := s.targets.push {}
      document := s.document.insert selector ⟨s.targets.size⟩ }
  return ⟨s.targets.size⟩

def target? (selector : String) : View C (Option TargetId) := do
  let s ← get
  return s.document.get? selector

def modifyTarget (t : TargetId) (f : Target → Target) : View C Unit :=
  modify fun s => { s with targets := s.targets.modify t.index f }

def handlerOf (i : InstanceId) (data : ObjectId) (b : Binding) : Handler :=
  match b.kind with
  | .click => .click i b.target
  | .model => .model data b.target b.checkbox

/-- Writes markup to a target: its content becomes the markup without markers, and the markers
become its handlers. -/
def writeTarget (i : InstanceId) (data : ObjectId) (html : String) (t : TargetId) : View C Unit :=
  let r := Binding.extract html
  modifyTarget t fun x =>
    { content := r.markup
      handlers := r.bindings.map fun b => (b, handlerOf i data b)
      writes := x.writes + 1 }

def clearHandlers (t : TargetId) : View C Unit :=
  modifyTarget t fun x => { x with handlers := [] }

/-! ## Rendering and mounting -/

/-- Renders an instance at top level, and writes to its target if it is mounted. -/
def renderTop (i : InstanceId) : View C Rendered := do
  resetStacks
  match ← instance? i with
  | none => return .markup ""
  | some x =>
    let r ← renderInstance x
    let rendered ← settle .render .renderFailed r
    let now ← instance? i
    match now.bind (·.target) with
    | some t => writeTarget i x.data rendered.html t
    | none => pure ()
    return rendered

/-- Runs hooks of an instance, one after the other. They depend on nothing. -/
def runHooks (i : InstanceId) : List C.Body → View C Unit
  | [] => return ()
  | b :: rest => do
    let _ ← Program.untracked (S := C.signature) (.invoke b (.hook i))
    runHooks i rest

/-- Runs the mounted hooks after the first render that gave markup. -/
def afterRender (i : InstanceId) : Rendered → View C Unit
  | .diagnostic _ => return ()
  | .markup _ => do
    match ← instance? i with
    | some x =>
      if x.mounted then return ()
      else
        modifyInstance i fun x => { x with mounted := true }
        let hooks ← hooksOf x.hooks
        runHooks i hooks.mounted
    | none => return ()

def refresh (i : InstanceId) : View C Unit := do
  match ← instance? i with
  | some x =>
    if x.isAlive then
      during i do
        let r ← renderTop i
        afterRender i r
    else return ()
  | none => return ()

/-- Mounts an instance onto a target. A hook may unmount it right away; otherwise the effect of an
earlier mount ends. -/
def mountTarget (i : InstanceId) (t : TargetId) : View C Unit := do
  modifyInstance i fun x => { x with target := some t }
  let e ← Program.perform (S := C.signature) (.spawn (.refresh i))
  let x ← instance? i
  match x.bind (·.target) with
  | none => Program.perform (.dispose e)
  | some _ =>
    modifyInstance i fun x => { x with mountEffect := some e }
    match x.bind (·.mountEffect) with
    | some previous => Program.perform (.dispose previous)
    | none => return ()

def mount (i : InstanceId) (selector : String) : View C (Except ViewError Unit) := do
  match ← target? selector with
  | none =>
    Program.report (.elementNotFound selector)
    return .error (.targetNotFound selector)
  | some t =>
    mountTarget i t
    return .ok ()

/-- Unmounts an instance: it renders no more, its target keeps no handlers, and its unmounted hooks
run if they have not. -/
def unmount (i : InstanceId) : View C Unit := do
  endMountEffect i
  match ← instance? i with
  | none => return ()
  | some x =>
    modifyInstance i fun x => { x with target := none }
    match x.target with
    | some t => clearHandlers t
    | none => pure ()
    if x.unmounted then return ()
    else
      modifyInstance i fun x => { x with unmounted := true }
      let hooks ← hooksOf x.hooks
      runHooks i hooks.unmounted

/-! ## Interactions -/

def follow (o : ObjectId) : List String → View C (Option ObjectId)
  | [] => return some o
  | name :: rest => do
    match ← Program.peek (.property o name) with
    | some (.object next) => follow next rest
    | _ => return none

def pathNames (path : String) : List String :=
  (Text.splitOn ['.'] path.toList).map String.ofList

/-- Writes a value at a dotted path inside an object. Nothing is written when the path leads
through something that is no object. -/
def writePath (data : ObjectId) (path : String) (v : Value) : View C Unit := do
  let names := pathNames path
  match ← follow data names.dropLast with
  | some o => Program.write (.set o (names.getLastD "") v)
  | none => Program.report .modelPathBroken

def handle (h : Handler) (input : Value) : View C Unit := do
  match h with
  | .click i method =>
    match ← instance? i with
    | some x =>
      if x.isAlive then
        during i do
          match ← callMethod i method [] with
          | .ok _ => return ()
          | .error (.methodNotFound _) => Program.report .clickMethodMissing
          | .error _ => Program.report .clickFailed
      else return ()
    | none => return ()
  | .model data path checkbox =>
    writePath data path (if checkbox then .bool input.isTruthy else input)

/-- Lets an interaction happen: the binding of a kind at a position. -/
def dispatch (t : TargetId) (kind : BindingKind) (ordinal : Nat) (input : Value) :
    View C (Except ViewError Unit) := do
  let s ← get
  let x := s.targets[t.index]?.getD {}
  match x.handlers.find? fun h => h.1.kind == kind && h.1.ordinal == ordinal with
  | some h =>
    handle h.2 input
    return .ok ()
  | none => return .error (.bindingNotFound kind ordinal)

end View

end LiveMarkup
