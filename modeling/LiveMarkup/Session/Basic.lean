import LiveMarkup.Failure
import LiveMarkup.Session.Statement
import LiveMarkup.View.Semantics

/-!
# Sessions

A session is an application of the view layer whose code is scripts. It keeps variables and gives
names to effects, instances and definitions.

Names in expressions are looked up among the local names of the running script first, then among
the variables, as they stand at that moment.
-/

namespace LiveMarkup

structure ScriptEnv where
  locals : List (String × Value) := []
  /-- The instance whose hook is running. -/
  self : Option InstanceId := none

inductive SessionBody where
  | arguments
  | first
  | constant (v : Value)
  | fail (e : ValueError)
  | literal (v : Literal)
  /-- Runs a script with the names of the occasion. -/
  | script (s : Script)
  /-- Runs a script with the names of the script that wrote it down. -/
  | closure (env : ScriptEnv) (s : Script)

inductive SessionTask where
  | block (env : ScriptEnv) (s : Script)
  | expression (env : ScriptEnv) (e : ExprText)

structure TargetView where
  content : String
  writes : Nat
  bindings : List Binding
deriving DecidableEq

def TargetView.ofTarget (t : Target) : TargetView :=
  ⟨t.content, t.writes, t.bindings⟩

structure Session where
  vars : Table Value := .empty
  effects : Table EffectId := .empty
  instances : Table InstanceId := .empty
  definitions : Table (Definition SessionBody) := .empty
  store : Option StoreId := none
  /-- What targets looked like when they were last reported. -/
  shown : Table TargetView := .empty

namespace Session

/-- Sessions as applications of the view layer. A task may end with the value that a script gave
back. -/
abbrev client : Client where
  Body := SessionBody
  Task := SessionTask
  Answer := Except Failure (Option Value)
  State := Session

abbrev Act (α : Type) := View client α

abbrev Attempt (α : Type) := ExceptT Failure (View client) α

abbrev order (op : Op client.signature) : Act op.Reply :=
  Program.perform op

abbrev read (q : Query) : Act q.Answer :=
  Program.read q

abbrev peek (q : Query) : Act q.Answer :=
  Program.peek q

abbrev write (u : Update) : Act u.Result :=
  Program.write u

def newList (items : List Value) : Act Value :=
  .list <$> Program.newList items

def newObject (fields : Table Value) : Act Value :=
  .object <$> Program.newObject fields

def newHost (x : HostObject) : Act Value :=
  .host <$> Program.newHost x

abbrev viewState : Act (ViewState client) :=
  View.get

abbrev modifyView (f : ViewState client → ViewState client) : Act Unit :=
  View.modify f

def get : Act Session :=
  return (← viewState).client

def modify (f : Session → Session) : Act Unit :=
  modifyView fun s => { s with client := f s.client }

def setVar (name : String) (v : Value) : Act Unit :=
  modify fun s => { s with vars := s.vars.insert name v }

def misuse {α : Type} (m : Misuse) : Attempt α :=
  throw (.misuse m)

def ofView {α : Type} (r : Except ViewError α) : Attempt α :=
  ExceptT.mk (pure (r.mapError .view))

def ofCompile {α : Type} (r : Except CompileError α) : Attempt α :=
  ExceptT.mk (pure (r.mapError .compile))

/-! ## Values -/

mutual

def build : Literal → Act Value
  | .undefined => return .undefined
  | .null => return .null
  | .bool b => return .bool b
  | .number x => return .number x
  | .text s => return .text s
  | .list items => do newList (← buildAll items)
  | .object entries => do newObject (.ofList (← buildEntries entries))
  | .function name kind => do View.newFunction (.body (← buildFunction kind)) name
  | .plain typeName => newHost (.plain typeName)
  | .bag attrs => do newHost (.bag (.ofList (← buildEntries attrs)))
  | .ref name => return ((← get).vars.get? name).getD .undefined

def buildFunction : FunctionLiteral → Act SessionBody
  | .arguments => return .arguments
  | .first => return .first
  | .constant v => return .constant (← build v)
  | .fail e => return .fail e
  | .script s => return .script s

def buildAll : List Literal → Act (List Value)
  | [] => return []
  | v :: rest => return (← build v) :: (← buildAll rest)

def buildEntries : List (String × Literal) → Act (List (String × Value))
  | [] => return []
  | (k, v) :: rest => return (k, ← build v) :: (← buildEntries rest)

end

/-- Makes literals into variables, one after the other, so that later ones may refer to earlier
ones. -/
def defineVars : List (String × Literal) → Act Unit
  | [] => return ()
  | (name, v) :: rest => do
    setVar name (← build v)
    defineVars rest

/-! ## Expressions -/

def lookup (env : ScriptEnv) (name : String) : Act (Option Value) := do
  match env.locals.lookup name with
  | some v => return some v
  | none => return (← get).vars.get? name

def environment (env : ScriptEnv) : Environment client.signature where
  lookup := lookup env
  apply := View.apply
  invoke := View.callHost

def evaluate (env : ScriptEnv) (source : ExprText) : Attempt Value :=
  match Expr.parse source with
  | .error e => throw (.expression e)
  | .ok e => ExceptT.mk ((·.mapError .eval) <$> (e.eval (environment env)).run)

def evaluateAll (env : ScriptEnv) : List ExprText → Attempt (List Value)
  | [] => return []
  | e :: rest => return (← evaluate env e) :: (← evaluateAll env rest)

def evaluateUntracked (env : ScriptEnv) (source : ExprText) : Attempt Value := do
  let v ← ExceptT.mk (order (.within none (.task (.expression env source))))
  return v.getD .undefined

def object? : Value → Option ObjectId
  | .object o => some o
  | _ => none

def objectOf (env : ScriptEnv) (source : ExprText) : Attempt ObjectId := do
  match object? (← evaluate env source) with
  | some o => return o
  | none => misuse .notAnObject

def listOf (env : ScriptEnv) (source : ExprText) : Attempt ListId := do
  match ← evaluate env source with
  | .list l => return l
  | _ => misuse .notAList

def toContainer : Value → Attempt Container
  | .object o => return .object o
  | .list l => return .list l
  | _ => misuse .notAContainer

/-- The container that an expression gives, evaluated without depending on anything. -/
def containerOf (env : ScriptEnv) (source : ExprText) : Attempt Container := do
  toContainer (← evaluateUntracked env source)

end Session

end LiveMarkup
