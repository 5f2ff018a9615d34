import LiveMarkup.View.Instance

/-!
# Statements

Scripts drive the library from outside: they make values, effects, components and instances, and
interact with them. Expressions stand in statements as texts and are read when the statement runs.

Values that a script writes down are `Literal`s. A literal is made into a value each time it is
needed, with new containers each time.
-/

namespace LiveMarkup

abbrev ExprText := String

inductive ObjectAction where
  | get (key : String)
  | lookup (key : String)
  | has (key : String)
  | peek (key : String)
  | set (key : String) (value : ExprText)
  | remove (key : String)
  | keys
  | entries
  | entriesUntracked
  | copy

inductive ListAction where
  | get (i : Nat)
  | set (i : Nat) (value : ExprText)
  | push (value : ExprText)
  | pop
  | insert (i : Nat) (value : ExprText)
  | remove (i : Nat)
  | clear
  | items
  | itemsUntracked

inductive ContainerAction where
  | track (key : Key)
  | trigger (key : Key)
  | subscribers (key : Key)
  | hasTarget

inductive EffectAction where
  | run
  | dispose
  | isDisposed
  | drop
  | dependencies
  | clearDependencies

inductive InstanceAction where
  | drop
  | render
  | call (method : String) (args : List ExprText)
  | data
  | isMounted
  | mount (selector : String)
  | mountTarget (selector : String)
  | unmount

inductive TargetAction where
  | create
  | click (i : Nat)
  | input (i : Nat) (value : ExprText)
  | content

inductive StackAction where
  | push (name text : String)
  | read (name : String)
  | reset

inductive Role where
  | component
  | layout
  | view

/-- A definition written down, with literals `L` and scripts `P`. Parts are applied in the order in
which they are listed. -/
structure DefinitionSpec (L P : Type) where
  name : String := "anon"
  template : Option String := none
  routine : Option String := none
  fixed : Option String := none
  data : Option L := none
  factory : Option P := none
  props : List String := []
  methods : List (String × P) := []
  mounted : List P := []
  unmounted : List P := []

/-- A definition written down, or one that was stored before. -/
inductive DefinitionRef (L P : Type) where
  | stored (id : String)
  | given (spec : DefinitionSpec L P)

structure OptionsSpec (L : Type) where
  props : List (String × L) := []
  attributes : List (String × L) := []
  slots : List (String × Fragment Owner) := []
  sections : List (String × Fragment Owner) := []
  data : Option L := none

mutual

inductive Literal where
  | undefined
  | null
  | bool (b : Bool)
  | number (x : Float)
  | text (s : String)
  | list (items : List Literal)
  | object (entries : List (String × Literal))
  | function (name : String) (kind : FunctionLiteral)
  | plain (typeName : String)
  | bag (attrs : List (String × Literal))
  | ref (name : String)

inductive FunctionLiteral where
  | arguments
  | first
  | constant (v : Literal)
  | fail (e : ValueError)
  | script (body : List Statement)

inductive Statement where
  | value (name : String) (v : Literal)
  | assign (name : String) (e : ExprText)
  | forget (name : String)
  | bind (name : String) (s : Statement)
  | eval (e : ExprText)
  | log (e : ExprText)
  | json (e : ExprText)
  | branch (condition : ExprText) (yes no : List Statement)
  | giveBack (e : ExprText)
  | fail (e : ValueError)
  | object (target : ExprText) (action : ObjectAction)
  | list (target : ExprText) (action : ListAction)
  | length (target : ExprText)
  | isEmpty (target : ExprText)
  | container (target : ExprText) (action : ContainerAction)
  | newEffect (name : String) (body : List Statement)
  | effect (name : String) (action : EffectAction)
  | untracked (body : List Statement)
  | asEffect (name : String) (body : List Statement)
  | activeEffect
  | maxDepth
  | setMaxDepth (n : Nat)
  | define (id : String) (d : DefinitionRef Literal (List Statement))
  | register (role : Role) (name : String) (d : DefinitionRef Literal (List Statement))
  | service (name : String) (v : Literal)
  | resetCatalog
  | store (state : Literal) (mutations : List (String × List Statement))
  | commit (mutation : String) (payload : ExprText)
  | storeState
  | settings (source : String)
  | describe (d : DefinitionRef Literal (List Statement)) (prop : String)
  | newInstance (id : String) (d : DefinitionRef Literal (List Statement))
      (options : OptionsSpec Literal)
  | onInstance (id : String) (action : InstanceAction)
  | renderDynamic (d : DefinitionRef Literal (List Statement)) (attrs : List (String × Literal))
      (slots : List (String × Fragment Owner))
  | onMounted (body : List Statement)
  | onUnmounted (body : List Statement)
  | hasCurrent
  | target (selector : String) (action : TargetAction)
  | stack (action : StackAction)
  | unknown (name : String)

end

instance : Inhabited Literal := ⟨.undefined⟩
instance : Inhabited FunctionLiteral := ⟨.arguments⟩
instance : Inhabited Statement := ⟨.activeEffect⟩
instance {L P : Type} : Inhabited (DefinitionRef L P) := ⟨.stored ""⟩
instance {L : Type} : Inhabited (OptionsSpec L) := ⟨{}⟩

abbrev Script := List Statement

end LiveMarkup
