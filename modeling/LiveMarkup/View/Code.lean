import LiveMarkup.Routine.Render
import LiveMarkup.View.Binding
import LiveMarkup.View.Definition
import LiveMarkup.View.Error

/-!
# Code and state of the view layer

The view layer is an application of reactive programs. Its code is first-order: besides the
application's own bodies there is a routine to render, and a mounted instance to keep up to date.
Functions that templates can call are kept as data too, so that a value never hides code.

Its state is everything that outlives one call: functions, compiled templates, hooks, instances,
the catalog of what is registered, stores, stacks, settings and the document.
-/

namespace LiveMarkup

structure InstanceId where
  index : Nat
deriving DecidableEq, Inhabited

structure HookSetId where
  index : Nat
deriving DecidableEq, Inhabited

structure TargetId where
  index : Nat
deriving DecidableEq, Inhabited

structure Client where
  /-- Code of functions, methods, factories, hooks, mutations and effects. -/
  Body : Type
  Task : Type
  /-- What a task results in. -/
  Answer : Type
  State : Type

inductive Invocation where
  | function (args : List Value)
  | method (data : ObjectId) (args : List Value)
  | factory
  | hook (i : InstanceId)
  | mutation (state : ObjectId) (payload : Value)
  | effect

/-- What a preview knows besides its template. -/
structure PreviewKit where
  layouts : Table Routine := .empty
  services : Table Value := .empty
  globals : Table Value := .empty
  broken : List String := []

/-- Who a template is rendered for, and with which sections. -/
inductive Owner where
  | live (data : ObjectId) (sections : Table (Fragment Owner))
  /-- A preview, which draws placeholders for what lies beyond the template. -/
  | preview (kit : PreviewKit) (sections : Table (Fragment Owner))

def Owner.sections : Owner → Slots Owner
  | .live _ sections => sections
  | .preview _ sections => sections

inductive FunctionCode (B : Type) where
  | body (b : B)
  | method (data : ObjectId) (b : B)
  | classNames
  | styleNames
  | escape
  | slot (slots : Slots Owner)
  | sectionOf (f : Fragment Owner)
  | push
  | stack

inductive Code (C : Client) where
  | invoke (b : C.Body) (occasion : Invocation)
  | render (r : Routine) (scope : Scope) (owner : Owner)
  | refresh (i : InstanceId)
  | task (t : C.Task)

abbrev Code.Reply {C : Client} : Code C → Type
  | .invoke _ _ => Except ValueError Value
  | .render _ _ _ => Except RenderError String
  | .refresh _ => Unit
  | .task _ => C.Answer

structure HookSet (B : Type) where
  mounted : List B := []
  unmounted : List B := []

structure Instance (B : Type) where
  definition : Definition B
  data : ObjectId
  globals : Table Value
  routine : Routine
  hooks : HookSetId
  sections : Slots Owner
  target : Option TargetId := none
  mountEffect : Option EffectId := none
  /-- Whether the mounted hooks have run. -/
  mounted : Bool := false
  /-- Whether the unmounted hooks have run. -/
  unmounted : Bool := false
  released : Bool := false
  busy : Nat := 0

/-- Whether an instance still reacts: the application keeps it, or it is in the middle of
something. -/
def Instance.isAlive {B : Type} (x : Instance B) : Bool :=
  !x.released || x.busy != 0

inductive Handler where
  | click (i : InstanceId) (method : String)
  | model (data : ObjectId) (path : String) (checkbox : Bool)

structure Target where
  content : String := ""
  handlers : List (Binding × Handler) := []
  writes : Nat := 0

def Target.bindings (t : Target) : List Binding :=
  t.handlers.map Prod.fst

structure Store (B : Type) where
  state : ObjectId
  mutations : Table B

structure Catalog (B : Type) where
  components : Table (Definition B) := .empty
  layouts : Table (Definition B) := .empty
  views : Table (Definition B) := .empty
  services : Table Value := .empty
  store : Option StoreId := none

structure ViewState (C : Client) where
  functions : Array (FunctionCode C.Body) := #[]
  cells : Array (Option Routine) := #[]
  hookSets : Array (HookSet C.Body) := #[]
  /-- The hooks of the instance whose data is being made. -/
  ambient : Option HookSetId := none
  instances : Array (Instance C.Body) := #[]
  catalog : Catalog C.Body := {}
  stores : Array (Store C.Body) := #[]
  pushed : Table String := .empty
  settings : Settings := {}
  targets : Array Target := #[]
  document : Table TargetId := .empty
  client : C.State

abbrev Client.signature (C : Client) : Signature where
  Code := Code C
  Reply := Code.Reply
  State := ViewState C

abbrev View (C : Client) (α : Type) := Program C.signature α

end LiveMarkup
