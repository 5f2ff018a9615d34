import LiveMarkup.Expr.Eval
import LiveMarkup.Routine.Basic
import LiveMarkup.Routine.Rendered

/-!
# Rendering routines

A routine renders against a scope: the variables of the template itself, innermost first, then the
data of the instance, then the names every template can see. Whatever reaches beyond the template
(child components, layouts, includes, sections, stacks and services) is asked of a `Host`.

A slot or section is a `Fragment`: markup, or a body that remembers the scope it was written in and
the host it belongs to, and renders when somebody asks for it.
-/

namespace LiveMarkup

inductive RenderError where
  | eval (e : EvalError)
  | notIterable (what : String)
  | fragment (message : String)
deriving DecidableEq

def RenderError.message : RenderError → String
  | .eval e => e.message
  | .notIterable what => what ++ " is not iterable"
  | .fragment message => message

structure Scope where
  data : ObjectId
  globals : Table Value
  /-- Variables of the template, innermost first. -/
  locals : List (Table Value) := []

namespace Scope

def withLocals (s : Scope) (vars : Table Value) : Scope :=
  { s with locals := vars :: s.locals }

def local? (s : Scope) (name : String) : Option Value :=
  s.locals.findSome? (·.get? name)

/-- The value of a name: a variable, a property of the data, or a global name. -/
def lookup {S : Signature} (s : Scope) (name : String) : Program S (Option Value) :=
  match s.local? name with
  | some v => return some v
  | none => do
    match ← Program.read (.property s.data name) with
    | some v => return some v
    | none => return s.globals.get? name

end Scope

/-- A piece of markup that may have to be rendered first. `H` is what it knows of its host. -/
inductive Fragment (H : Type) where
  | markup (html : String)
  | failure (message : String)
  | body (code : List Instruction) (scope : Scope) (host : H)

/-- Fragments by name: the slots of a component or the sections of a layout. -/
abbrev Slots (H : Type) := Table (Fragment H)

structure Host (S : Signature) (H : Type) where
  /-- How fragments will find this host again. -/
  self : H
  component : String → Table Value → Slots H → Program S Rendered
  layout : String → Slots H → Program S Rendered
  includeView : String → Option Value → Program S Rendered
  sectionOf : String → Option (Fragment H)
  fragment : Fragment H → Program S Rendered
  push : String → String → Program S Unit
  stack : String → Program S String
  service : String → Program S (Option Value)
  apply : FunctionId → List Value → Program S (Except ValueError Value)
  invoke : HostId → String → List Value → Program S (Except ValueError Value)

abbrev Rendering (S : Signature) (α : Type) := ExceptT RenderError (Program S) α

/-- How a list of instructions ended: at its end, or by a break. -/
inductive Flow where
  | onward
  | leave
deriving DecidableEq

namespace Render

variable {S : Signature} {H : Type}

def lift {α : Type} (p : Program S α) : Rendering S α :=
  ExceptT.lift p

/-- Takes a failure of an expression for a failure of the routine. -/
def ofEval {α : Type} (x : Eval S α) : Rendering S α :=
  ExceptT.mk do
    match ← x.run with
    | .ok a => return .ok a
    | .error e => return .error (.eval e)

def environment (host : Host S H) (scope : Scope) : Environment S where
  lookup := scope.lookup
  apply := host.apply
  invoke := host.invoke

def value (host : Host S H) (scope : Scope) (e : Expr) : Rendering S Value :=
  ofEval (e.eval (environment host scope))

def value? (host : Host S H) (scope : Scope) : Option Expr → Rendering S (Option Value)
  | none => return none
  | some e => do
    let v ← value host scope e
    return some v

def display (v : Value) : Rendering S String :=
  lift (Program.read (.display v))

def isUnresolvable : EvalError → Bool
  | .reference _ => true
  | .value (.nullAccess _ _) => true
  | _ => false

/-- The value of an expression, or none when it cannot be resolved. -/
def resolve (host : Host S H) (scope : Scope) (e : Expr) : Rendering S (Option Value) :=
  ExceptT.mk do
    match ← (e.eval (environment host scope)).run with
    | .ok v => return .ok (some v)
    | .error err => return if isUnresolvable err then .ok none else .error (.eval err)

def holds (host : Host S H) (scope : Scope) : Condition → Rendering S Bool
  | .truthy e => do
    let v ← value host scope e
    return v.isTruthy
  | .falsy e => do
    let v ← value host scope e
    return !v.isTruthy
  | .isset e => do
    let v ← resolve host scope e
    return v.any fun v => !v.isNullish
  | .empty e => do
    match ← resolve host scope e with
    | none => return true
    | some (.list l) => do
      let n ← lift (Program.read (.length l))
      return n == 0
    | some v => return !v.isTruthy

def loopEntries (source : Expr) (v : Value) : Rendering S (List (Value × Value)) :=
  if !v.isTruthy then return []
  else
    match v with
    | .list l => do
      let items ← lift (Program.read (.items l))
      return items.mapIdx fun i item => (.ofNat i, item)
    | .text s => return s.toList.mapIdx fun i c => (.ofNat i, .text c.toString)
    | .object o => do
      let entries ← lift (Program.read (.entries o))
      return entries.map fun e => (.text e.1, e.2)
    | _ => throw (.notIterable source.describe)

/-- What `loop` holds in the iteration at position `index` of `count`. -/
def loopRecord (index count depth : Nat) (parent : Option Value) : Table Value :=
  .ofList <|
    [("index", .ofNat index),
      ("iteration", .ofNat (index + 1)),
      ("remaining", .ofNat (count - index - 1)),
      ("count", .ofNat count),
      ("first", .bool (index == 0)),
      ("last", .bool (index + 1 == count)),
      ("even", .bool ((index + 1) % 2 == 0)),
      ("odd", .bool ((index + 1) % 2 == 1)),
      ("depth", .ofNat depth)] ++
    (parent.map fun p => ("parent", p)).toList

/-- How deep the next loop is nested, told by the `loop` variable around it. Rendering stops where
the depth around is the greatest there is. -/
def loopDepth (parent : Option Value) : Rendering S Nat :=
  match parent with
  | some (.object outer) => do
    let d ← lift (Program.peek (.property outer "depth"))
    let x ← lift (Program.read (.number (d.getD .undefined)))
    lift (Program.read (.countAfter (Decimal.toIndex x)))
  | _ => return 1

def loopVariables (record : ObjectId) (key : Option String) (item : String)
    (entry : Value × Value) : Table Value :=
  .ofList <|
    [("loop", .object record)] ++ (key.map fun k => (k, entry.1)).toList ++ [(item, entry.2)]

/-- Runs a body for entries one after the other, until one of them ends with a break. `index` is
the position of the first entry. -/
def iterate (body : Nat → Value × Value → String → Rendering S (String × Flow)) (index : Nat)
    (out : String) : List (Value × Value) → Rendering S String
  | [] => return out
  | entry :: rest => do
    let (out, flow) ← body index entry out
    match flow with
    | .leave => return out
    | .onward => iterate body (index + 1) out rest

/-- Where a switch starts: at the first label whose test strictly equals the subject, else at the
default label wherever it stands. -/
def switchStart (host : Host S H) (scope : Scope) (subject : Value) :
    List (Option Expr × Nat) → Option Nat → Rendering S (Option Nat)
  | [], fallback => return fallback
  | (none, position) :: rest, fallback =>
    switchStart host scope subject rest (fallback <|> some position)
  | (some test, position) :: rest, fallback => do
    let v ← value host scope test
    if v.strictEq subject then return some position
    else switchStart host scope subject rest fallback

def attributeValues (host : Host S H) (scope : Scope) :
    List (String × AttrValue) → Rendering S (List (String × Value))
  | [] => return []
  | (name, .literal s) :: rest => do
    let values ← attributeValues host scope rest
    return (name, .text s) :: values
  | (name, .dynamic e) :: rest => do
    let v ← value host scope e
    let values ← attributeValues host scope rest
    return (name, v) :: values

def fragments (host : Host S H) (scope : Scope) (bodies : List (String × List Instruction)) :
    Slots H :=
  .ofList (bodies.map fun b => (b.1, .body b.2 scope host.self))

/-- The JSON text of a value. Absence and functions have none and read `undefined`. -/
def jsonText (v : Value) : Rendering S String :=
  match v with
  | .undefined | .function _ _ => return "undefined"
  | v => do
    match ← lift (Program.read (.json v)) with
    | .ok j => return j.render
    | .error e => throw (.eval (.value e))

def attributeText (name content : String) : String :=
  name ++ "=\"" ++ content ++ "\""

def simple (host : Host S H) (scope : Scope) : Instruction → Rendering S String
  | .text s => return s
  | .echo e => do
    let v ← value host scope e
    display v
  | .json e => do
    let v ← value host scope e
    jsonText v
  | .classes e => do
    let v ← value host scope e
    let classes ← lift (Program.read (.classNames v))
    return attributeText "class" classes
  | .style e => do
    let v ← value host scope e
    let style ← lift (Program.read (.styleNames v))
    return attributeText "style" style
  | .flag name condition => do
    let v ← value host scope condition
    return if v.isTruthy then name else ""
  | .click handler => return attributeText "data-z-click" handler
  | .model path e => do
    let v ← value host scope e
    let current ← if v.isNullish then pure "" else Text.escapeHtml <$> display v
    return attributeText "value" current ++ " " ++ attributeText "data-z-model" path
  | .yieldSection sectionName fallback =>
    match host.sectionOf sectionName with
    | some fragment => do
      match ← lift (host.fragment fragment) with
      | .markup html => return html
      | .diagnostic d => throw (.fragment d.message)
    | none => do
      match ← value? host scope fallback with
      | some v => if v.isNullish then return "" else display v
      | none => return ""
  | .stack name => lift (host.stack name)
  | .includeView view data => do
    let v ← value host scope view
    let name ← display v
    let passed ← value? host scope data
    let r ← lift (host.includeView name passed)
    return r.html
  | .component name attrs slots => do
    let values ← attributeValues host scope attrs
    let r ← lift (host.component name (.ofList values) (fragments host scope slots))
    return r.html
  | .namedComponent e data body => do
    let v ← value host scope e
    let name ← display v
    let attrs ← match ← value? host scope data with
      | some (.object o) => lift (Program.read (.entries o))
      | _ => pure []
    let slots := (body.map fun b => ("default", b)).toList
    let r ← lift (host.component name (.ofList attrs) (fragments host scope slots))
    return r.html
  | .extendLayout layout sections => do
    let r ← lift (host.layout layout (fragments host scope sections))
    return r.html
  | _ => return ""

mutual

/-- Runs instructions from position `start` on, adding to `out`. An injected service is a variable
of the instructions behind it. -/
def run (host : Host S H) (scope : Scope) (start : Nat) (out : String) :
    List Instruction → Rendering S (String × Flow)
  | [] => return (out, .onward)
  | i :: rest =>
    match start with
    | n + 1 => run host scope n out rest
    | 0 => do
      match i with
      | .inject binder service =>
        let v ← match ← lift (host.service service) with
          | some v => pure v
          | none => do
            lift (Program.report .serviceMissing)
            pure .undefined
        run host (scope.withLocals (.ofList [(binder, v)])) 0 out rest
      | i =>
        let (out, flow) ← step host scope out i
        match flow with
        | .leave => return (out, .leave)
        | .onward => run host scope 0 out rest

def step (host : Host S H) (scope : Scope) (out : String) :
    Instruction → Rendering S (String × Flow)
  | .leave => return (out, .leave)
  | .choose branches otherwise => do
    match ← choose host scope out branches with
    | some r => return r
    | none => run host scope 0 out otherwise
  | .switch subject labels body => do
    let v ← value host scope subject
    match ← switchStart host scope v labels none with
    | some start => do
      let (out, _) ← run host scope start out body
      return (out, .onward)
    | none => return (out, .onward)
  | .foreach source key item body => do
    let v ← value host scope source
    let entries ← loopEntries source v
    let parent := scope.local? "loop"
    let depth ← loopDepth parent
    let out ← iterate
      (fun index entry out => do
        let record ← lift (Program.newObject (loopRecord index entries.length depth parent))
        run host (scope.withLocals (loopVariables record key item entry)) 0 out body)
      0 out entries
    return (out, .onward)
  | .push stack body => do
    let (content, _) ← run host scope 0 "" body
    lift (host.push stack content)
    return (out, .onward)
  | i => do
    let s ← simple host scope i
    return (out ++ s, .onward)

def choose (host : Host S H) (scope : Scope) (out : String) :
    List (Condition × List Instruction) → Rendering S (Option (String × Flow))
  | [] => return none
  | (condition, body) :: rest => do
    let b ← holds host scope condition
    if b then do
      let r ← run host scope 0 out body
      return some r
    else choose host scope out rest

end

end Render

def Routine.render {S : Signature} {H : Type} (r : Routine) (host : Host S H) (scope : Scope) :
    Rendering S String := do
  let (out, _) ← Render.run host scope 0 "" r.body
  return out

end LiveMarkup
