import LiveMarkup.Session.Report

/-!
# Looking at values, expressions and templates

Single questions, each asked in a new session: what a value looks like from all sides, how two
values compare, what an expression evaluates to, and how a template renders on its own.
-/

namespace LiveMarkup

structure Inspection where
  value : Snapshot
  display : String
  number : Float
  truthy : Bool
  nullish : Bool
  typeName : String
  json : Except ValueError Json

structure Comparison where
  strict : Bool
  loose : Bool
  looseReversed : Bool
deriving DecidableEq

structure Evaluation where
  value : Snapshot
  display : String
  typeName : String

structure BagReport where
  html : String
  isEmpty : Bool
  asked : Option Snapshot
  merged : String
  mergedJson : Except ValueError Json

inductive PreviewTemplate where
  | source (text : String)
  | tree (root : Node)

def PreviewTemplate.compile : PreviewTemplate → Except CompileError Routine
  | .source text => Routine.compile text
  | .tree root => Routine.ofNode root

structure PreviewSpec where
  template : PreviewTemplate
  data : Option Literal := none
  globals : List (String × Literal) := []
  /-- Variables of the template, if any are given. -/
  locals : Option (List (String × Literal)) := none
  services : List (String × Literal) := []
  layouts : List (String × String) := []
  broken : List String := []

namespace Session

def ask {α : Type} (vars : List (String × Literal)) (p : Act α) : Ending (α × Stage) := do
  let (_, w) ← perform (defineVars vars) start
  perform p w

def inspect (vars : List (String × Literal)) (v : Literal) : Ending Inspection := do
  let (v, w) ← ask vars (build v)
  let value ← written (w.heap.snapshot v)
  let (display, w) ← perform (Program.read (.display v)) w
  let (number, w) ← perform (Program.read (.number v)) w
  let (json, _) ← perform (Program.read (.json v)) w
  return {
    value, display, number, json
    truthy := v.isTruthy
    nullish := v.isNullish
    typeName := v.typeName }

def comparison (vars : List (String × Literal)) (a b : Literal) : Ending Comparison := do
  let (r, _) ← ask vars do
    let a ← build a
    let b ← build b
    let loose ← Program.read (.looseEq a b)
    let looseReversed ← Program.read (.looseEq b a)
    return { strict := a.strictEq b, loose, looseReversed }
  return r

def evaluation (vars : List (String × Literal)) (e : ExprText) :
    Ending (Except Failure Evaluation) := do
  let (r, w) ← ask vars (evaluate {} e).run
  match r with
  | .error f => return .error f
  | .ok v =>
    let value ← written (w.heap.snapshot v)
    let display ← written (w.heap.shownText v)
    return .ok { value, display, typeName := v.typeName }

def classNames (vars : List (String × Literal)) (v : Literal) : Ending String := do
  let (s, _) ← ask vars do
    let v ← build v
    Program.read (.classNames v)
  return s

def styleNames (vars : List (String × Literal)) (v : Literal) : Ending String := do
  let (s, _) ← ask vars do
    let v ← build v
    Program.read (.styleNames v)
  return s

def inspectBag (vars attrs defaults : List (String × Literal)) (name : String) :
    Ending BagReport := do
  let ((attrs, defaults), w) ← ask vars do
    let attrs ← buildEntries attrs
    let defaults ← buildEntries defaults
    return (Table.ofList attrs, Table.ofList defaults)
  let (html, w) ← perform (Program.read (.attributesHtml attrs)) w
  let asked ← match attrs.get? name with
    | some v => some <$> written (w.heap.snapshot v)
    | none => pure none
  let (own, w) ← perform (Program.read (.mergedAttributes attrs defaults)) w
  let (merged, w) ← perform (Program.read (.attributesHtml own)) w
  let (bag, w) ← perform (Program.newHost (.bag own)) w
  let (mergedJson, _) ← perform (Program.read (.json (.host bag))) w
  return { html, isEmpty := attrs.isEmpty, asked, merged, mergedJson }

def compileAll : List (String × String) → Except CompileError (List (String × Routine))
  | [] => return []
  | (name, source) :: rest => do
    let r ← Routine.compile source
    let rs ← compileAll rest
    return (name, r) :: rs

def renderPreview (spec : PreviewSpec) : Attempt String := do
  let r ← ofCompile spec.template.compile
  let layouts ← ofCompile (compileAll spec.layouts)
  let data ← match spec.data with
    | some v => build v
    | none => pure .undefined
  let data ← match data with
    | .object o => pure o
    | _ => (Program.newObject .empty : Act ObjectId)
  let globals ← buildEntries spec.globals
  let locals ← spec.locals.toList.mapM fun vars => Table.ofList <$> buildEntries vars
  let services ← buildEntries spec.services
  let kit : PreviewKit :=
    { layouts := .ofList layouts
      services := .ofList services
      globals := .ofList globals
      broken := spec.broken }
  let scope : Scope := { data, globals := kit.globals, locals }
  match ← (View.render r scope (.preview kit .empty) : Act (Except RenderError String)) with
  | .ok html => return html
  | .error e => throw (.render e)

/-- Renders a template on its own: the markup and what was logged. -/
def preview (vars : List (String × Literal)) (spec : PreviewSpec) :
    Ending (Except Failure (String × List String)) := do
  let (r, w) ← ask vars (renderPreview spec).run
  return r.map fun html => (html, logLines w)

end Session

end LiveMarkup
