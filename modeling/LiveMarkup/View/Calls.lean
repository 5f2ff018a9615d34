import LiveMarkup.View.Code

/-!
# Calling functions and host objects

What happens when a template calls a function or a method of a host object. Fragments are rendered
here as well, because slots and sections reach templates as functions.
-/

namespace LiveMarkup

namespace View

variable {C : Client}

def get : View C (ViewState C) :=
  Program.state

def exchange (f : ViewState C → ViewState C) : View C (ViewState C) :=
  Program.exchangeState f

def modify (f : ViewState C → ViewState C) : View C Unit := do
  let _ ← exchange f

def invoke (b : C.Body) (occasion : Invocation) : View C (Except ValueError Value) :=
  Program.call (S := C.signature) (.invoke b occasion)

def render (r : Routine) (scope : Scope) (owner : Owner) : View C (Except RenderError String) :=
  Program.call (S := C.signature) (.render r scope owner)

def newFunction (code : FunctionCode C.Body) (name : String) : View C Value := do
  let s ← exchange fun s => { s with functions := s.functions.push code }
  return .function ⟨s.functions.size⟩ name

/-! ## Stacks -/

def pushStack (name content : String) : View C Unit :=
  modify fun s =>
    { s with pushed := s.pushed.insert name ((s.pushed.get? name).getD "" ++ content) }

def stackText (name : String) : View C String := do
  let s ← get
  return (s.pushed.get? name).getD ""

def resetStacks : View C Unit :=
  modify fun s => { s with pushed := .empty }

/-! ## Fragments -/

/-- Renders a fragment. The failure of a body becomes a diagnostic. -/
def renderFragment : Fragment Owner → View C Rendered
  | .markup html => return .markup html
  | .failure message => return .diagnostic (.nested .render message)
  | .body code scope owner => do
    match ← render ⟨code⟩ scope owner with
    | .ok html => return .markup html
    | .error e => return .diagnostic (.nested .render e.message)

def fragmentText (f : Fragment Owner) : View C (Except ValueError Value) := do
  match ← renderFragment f with
  | .markup html => return .ok (.text html)
  | .diagnostic d => return .error (.custom d.message)

/-! ## Functions -/

def display (v : Value) : View C String :=
  Program.read (.display v)

/-- The text of the first argument; none when it is missing or `undefined`. -/
def firstText (args : List Value) : View C (Option String) :=
  match args with
  | [] | .undefined :: _ => return none
  | v :: _ => do
    let s ← display v
    return some s

def argText (args : List Value) (i : Nat) : View C String :=
  match args[i]? with
  | some v => display v
  | none => return ""

def runFunction (code : FunctionCode C.Body) (args : List Value) :
    View C (Except ValueError Value) := do
  match code with
  | .body b => invoke b (.function args)
  | .method data b => invoke b (.method data args)
  | .classNames =>
    let s ← Program.read (.classNames (args.headD .undefined))
    return .ok (.text s)
  | .styleNames =>
    let s ← Program.read (.styleNames (args.headD .undefined))
    return .ok (.text s)
  | .escape =>
    let v := args.headD .undefined
    if v.isNullish then return .ok (.text "")
    else
      let s ← display v
      return .ok (.text (Text.escapeHtml s))
  | .slot slots =>
    let name ← firstText args
    match slots.get? (name.getD "default") with
    | some f => fragmentText f
    | none => return .ok (.text "")
  | .sectionOf f => fragmentText f
  | .push =>
    let name ← firstText args
    let content ← argText args 1
    pushStack (name.getD "") content
    return .ok .undefined
  | .stack =>
    let name ← firstText args
    let s ← stackText (name.getD "")
    return .ok (.text s)

def apply (f : FunctionId) (args : List Value) : View C (Except ValueError Value) := do
  let s ← get
  match s.functions[f.index]? with
  | some code => runFunction code args
  | none => return .ok .undefined

/-! ## Stores -/

def commit (id : StoreId) (mutation : String) (payload : Value) : View C (Except ViewError Unit) := do
  let s ← get
  match s.stores[id.index]? with
  | none => return .error (.mutationNotFound mutation)
  | some store =>
    match store.mutations.get? mutation with
    | none =>
      Program.report .mutationMissing
      return .error (.mutationNotFound mutation)
    | some b =>
      match ← invoke b (.mutation store.state payload) with
      | .ok _ => return .ok ()
      | .error e => return .error (.value e)

/-- A new store over a state. Only an object can be the state; anything else starts empty. -/
def newStore (state : Value) (mutations : Table C.Body) : View C StoreId := do
  let o ← match state with
    | .object o => pure o
    | v =>
      if !v.isNullish then Program.report .stateNotObject
      Program.newObject .empty
  let s ← exchange fun s => { s with stores := s.stores.push ⟨o, mutations⟩ }
  return ⟨s.stores.size⟩

def currentUser (state : ObjectId) : View C Value := do
  let v ← Program.read (.property state "user")
  return v.getD .undefined

/-- Whether the name of a user is that of somebody who signed in. -/
def isSignedInName : Value → Bool
  | .text s => s != "Guest"
  | .null => false
  | _ => true

/-- Whether somebody is signed in: there is a user, and it is not the guest. -/
def isSignedIn (state : ObjectId) : View C Bool := do
  let user ← currentUser state
  if !user.isTruthy then return false
  match user with
  | .object o =>
    let name ← Program.read (.property o "name")
    return isSignedInName (name.getD .undefined)
  | _ => return true

/-! ## Host objects -/

def mergedBag (attrs defaults : Table Value) : View C (Except ValueError Value) := do
  let merged ← Program.read (.mergedAttributes attrs defaults)
  let i ← Program.newHost (.bag merged)
  return .ok (.host i)

def bagMethod (attrs : Table Value) (name : String) (args : List Value) :
    View C (Except ValueError Value) := do
  match name with
  | "merge" =>
    match args with
    | [] | .undefined :: _ => mergedBag attrs .empty
    | .object o :: _ =>
      let entries ← Program.read (.entries o)
      mergedBag attrs (.ofList entries)
    | v :: _ => return .error (.invalidArgument ("merge expects an object, got " ++ v.typeName))
  | "toString" =>
    let s ← Program.read (.attributesHtml attrs)
    return .ok (.text s)
  | "has" =>
    match args with
    | [] => return .ok (.bool false)
    | v :: _ =>
      let s ← display v
      return .ok (.bool (attrs.contains s))
  | _ => return .error (.notAFunction ("$attributes." ++ name))

def storeMethod (id : StoreId) (name : String) (args : List Value) :
    View C (Except ValueError Value) := do
  match name with
  | "commit" =>
    let mutation ← argText args 0
    match ← commit id mutation (args.getD 1 .undefined) with
    | .ok _ => return .ok .undefined
    | .error e => return .error (.custom e.message)
  | _ => return .error (.notAFunction ("$store." ++ name))

def authMethod (state : ObjectId) (name : String) : View C (Except ValueError Value) := do
  match name with
  | "user" =>
    let user ← currentUser state
    return .ok user
  | "check" =>
    let b ← isSignedIn state
    return .ok (.bool b)
  | "guest" =>
    let b ← isSignedIn state
    return .ok (.bool !b)
  | _ => return .error (.notAFunction ("auth." ++ name))

def callHost (i : HostId) (name : String) (args : List Value) :
    View C (Except ValueError Value) := do
  match ← Program.read (.hostObject i) with
  | .plain typeName => return .error (.notAFunction (typeName ++ "." ++ name))
  | .bag attrs => bagMethod attrs name args
  | .store id _ => storeMethod id name args
  | .auth state => authMethod state name

end View

end LiveMarkup
