import LiveMarkup.Expr.Parser
import LiveMarkup.Routine.Basic
import LiveMarkup.Template.Clause
import LiveMarkup.Template.Node
import LiveMarkup.Template.TagText

/-!
# From trees to routines

Expressions are parsed here, once, so a malformed expression is found before anything renders.
Directives that divide a block are only accepted inside the blocks they divide, and a break only
inside a loop or a switch of the same body: the bodies of slots, sections and pushes are rendered
on their own and are no part of the loop around them.

A template that extends a layout keeps only the sections, pushes and injections at its top level;
rendering it renders the layout with those sections.
-/

namespace LiveMarkup

inductive CompileError where
  | expression (context source : String) (error : ExprError)
  | missingArgument (directive : String)
  | misplaced (directive allowed : String)
  | invalidForeach (clause : String)
  | invalidModelPath (path : String)
  | invalidInjectName (name : String)
  | contentBeforeCase
  | duplicateDefault
deriving DecidableEq

def CompileError.message : CompileError → String
  | .expression context source error =>
    "Invalid expression `" ++ source ++ "` in " ++ context ++ ": " ++ error.message
  | .missingArgument directive => "@" ++ directive ++ " requires an argument"
  | .misplaced directive allowed => "@" ++ directive ++ " is only allowed " ++ allowed
  | .invalidForeach clause =>
    "Invalid @foreach clause `" ++ clause ++
      "`, expected `items as item` or `items as key => item`"
  | .invalidModelPath path => "@model expects a property path, got `" ++ path ++ "`"
  | .invalidInjectName name => "@inject expects a variable name, got `" ++ name ++ "`"
  | .contentBeforeCase => "Only whitespace may appear before the first @case"
  | .duplicateDefault => "@switch has more than one @default"

namespace Compile

abbrev M (α : Type) := Except CompileError α

/-- Parses an expression; `context` says where it stands. -/
def expression (context source : String) : M Expr :=
  match Expr.parse source with
  | .ok e => .ok e
  | .error e => .error (.expression context source e)

def optional (context : String) : Option String → M (Option Expr)
  | none => .ok none
  | some source => do
    let e ← expression context source
    return some e

def isBlank (s : String) : Bool :=
  (Text.trimChars s.toList).isEmpty

/-- The arguments of a directive, the first one apart; it must not be blank. -/
def arguments (directive : String) (args : Option String) : M (String × List String) :=
  match Arguments.split (args.getD "") with
  | first :: rest => if first.isEmpty then throw (.missingArgument directive) else return (first, rest)
  | [] => throw (.missingArgument directive)

/-- The whole argument text of a directive as one expression. -/
def argument (directive : String) (args : Option String) : M Expr :=
  let source := args.getD ""
  if isBlank source then throw (.missingArgument directive)
  else expression ("@" ++ directive) source

/-- Attributes that stand in a tag by their name alone. -/
def flagNames : List String :=
  ["checked", "selected", "disabled", "readonly", "required"]

/-- A two-way binding: a path, shown as the expression it spells. -/
def model (args : Option String) : M Instruction := do
  let (first, _) ← arguments "model" args
  let path := Arguments.unquote first
  if !Clause.isPath path.toList then throw (.invalidModelPath path)
  let value ← expression "@model" path
  return .model path value

/-- An injected service: a variable name and the service it stands for. -/
def inject (args : Option String) : M Instruction := do
  let (first, rest) ← arguments "inject" args
  let binder := Arguments.unquote first
  if !Clause.isName binder.toList then throw (.invalidInjectName binder)
  match rest with
  | [] => throw (.missingArgument "inject")
  | service :: _ => return .inject binder (Arguments.unquote service)

/-- The clause of a loop, with its source parsed. -/
def loop (args : Option String) : M (Expr × Clause.Loop) := do
  let clause := args.getD ""
  if isBlank clause then throw (.missingArgument "foreach")
  match Clause.loop? clause with
  | none => throw (.invalidForeach (Text.trim clause))
  | some l =>
    let source ← expression "@foreach" l.source
    return (source, l)

def attributes (tag : String) : List TagText.Attribute → M (List (String × AttrValue))
  | [] => return []
  | a :: rest => do
    let value ←
      if a.isDynamic then
        (expression (":" ++ a.name ++ " on <" ++ tag ++ ">") a.value).map AttrValue.dynamic
      else pure (.literal a.value)
    let values ← attributes tag rest
    return (a.name, value) :: values

/-- Directives that stand for themselves and hold no body. -/
def simple (name : String) (args : Option String) : M Instruction := do
  match name with
  | "json" => return .json (← argument name args)
  | "class" => return .classes (← argument name args)
  | "style" => return .style (← argument name args)
  | "click" => return .click (Arguments.unquote (← arguments name args).1)
  | "model" => model args
  | "yield" =>
    let (first, rest) ← arguments name args
    return .yieldSection (Arguments.unquote first) (← optional "@yield" rest.head?)
  | "stack" => return .stack (Arguments.unquote (← arguments name args).1)
  | "include" =>
    let (first, rest) ← arguments name args
    let view ← expression "@include" first
    return .includeView view (← optional "@include" rest.head?)
  | "inject" => inject args
  | _ =>
    if flagNames.contains name then return .flag name (← argument name args)
    else
      return .text <| match args with
        | some a => "@" ++ name ++ "(" ++ a ++ ")"
        | none => "@" ++ name

/-- What a switch consists of so far: its labels and its body. -/
structure SwitchParts where
  labels : List (Option Expr × Nat) := []
  body : List Instruction := []

/-- What a conditional consists of so far: finished branches, the condition of the branch being
read (none behind the last `@else`), and the body of that branch. -/
structure BranchParts where
  branches : List (Condition × List Instruction) := []
  condition : Option Condition
  body : List Instruction := []

def BranchParts.finish (p : BranchParts) : Instruction :=
  match p.condition with
  | some c => .choose (p.branches ++ [(c, p.body)]) []
  | none => .choose p.branches p.body

/-- The slots of a component so far: the named ones, and the body of the default one if there is
any. -/
structure SlotParts where
  named : List (String × List Instruction) := []
  default : Option (List Instruction) := none

/-- The slots once all children are read; the default slot comes last. -/
def SlotParts.finish (p : SlotParts) : List (String × List Instruction) :=
  p.named ++ (p.default.map fun body => ("default", body)).toList

/-- The condition that a conditional directive starts with. -/
def condition? : String → Option (Expr → Condition)
  | "if" => some .truthy
  | "unless" => some .falsy
  | "isset" => some .isset
  | "empty" => some .empty
  | _ => none

def homeOf? : String → Option String
  | "else" | "elseif" => some "inside @if, @unless, @isset or @empty"
  | "case" | "default" => some "inside @switch"
  | _ => none

def componentName (tag : String) : String :=
  match tag.toList with
  | 'x' :: '-' :: rest => String.ofList rest
  | _ => tag

mutual

/-- The instructions of a node. `breakable` says whether a break has something to leave. -/
def node (breakable : Bool) : Node → M (List Instruction)
  | .root children => nodes breakable children
  | .text s => return [.text s]
  | .echo source => do
    let e ← expression "\x7b\x7b \x7d\x7d" source
    return [.echo e]
  | .component tag attrs children => do
    let values ← attributes tag (TagText.attributes attrs)
    let slots ← slotBodies {} children
    return [.component (componentName tag) values slots.finish]
  | .directive name args children =>
    match condition? name, homeOf? name with
    | some test, _ => do
      let e ← argument name args
      let parts ← branchBodies breakable { condition := some (test e) } children
      return [parts.finish]
    | none, some home => throw (.misplaced name home)
    | none, none =>
      match name with
      | "break" =>
        if breakable then return [.leave]
        else throw (.misplaced name "inside @switch or @foreach")
      | "switch" => do
        let subject ← argument "switch" args
        let parts ← switchBody {} children
        return [.switch subject parts.labels parts.body]
      | "foreach" => do
        let (source, l) ← loop args
        let body ← nodes true children
        return [.foreach source l.key l.item body]
      | "section" => do
        let (_, rest) ← arguments name args
        match rest with
        | value :: _ =>
          let e ← expression "@section" value
          return [.echo e]
        | [] => nodes breakable children
      | "push" => do
        let (first, _) ← arguments name args
        let body ← nodes false children
        return [.push (Arguments.unquote first) body]
      | "component" => do
        let (first, rest) ← arguments name args
        let body ← nodes false children
        let view ← expression "@component" first
        let data ← optional "@component" rest.head?
        return [.namedComponent view data (if children.isEmpty then none else some body)]
      | _ => do
        let i ← simple name args
        return [i]

def nodes (breakable : Bool) : List Node → M (List Instruction)
  | [] => return []
  | n :: rest => do
    let is ← node breakable n
    let more ← nodes breakable rest
    return is ++ more

/-- The branches of a conditional, divided by `@elseif` and `@else`. -/
def branchBodies (breakable : Bool) (p : BranchParts) : List Node → M BranchParts
  | [] => return p
  | .directive "else" _ _ :: rest => do
    match p.condition with
    | none => throw (.misplaced "else" "before @else")
    | some c => branchBodies breakable ⟨p.branches ++ [(c, p.body)], none, []⟩ rest
  | .directive "elseif" args _ :: rest => do
    match p.condition with
    | none => throw (.misplaced "elseif" "before @else")
    | some c =>
      let e ← argument "elseif" args
      branchBodies breakable ⟨p.branches ++ [(c, p.body)], some (.truthy e), []⟩ rest
  | n :: rest => do
    let is ← node breakable n
    branchBodies breakable { p with body := p.body ++ is } rest

def switchBody (p : SwitchParts) : List Node → M SwitchParts
  | [] => return p
  | .directive "case" args _ :: rest => do
    let test ← argument "case" args
    switchBody { p with labels := p.labels ++ [(some test, p.body.length)] } rest
  | .directive "default" _ _ :: rest => do
    if p.labels.any (·.1.isNone) then throw .duplicateDefault
    switchBody { p with labels := p.labels ++ [(none, p.body.length)] } rest
  | n :: rest =>
    if p.labels.isEmpty then
      if n.isBlankText then switchBody p rest else throw .contentBeforeCase
    else do
      let is ← node true n
      switchBody { p with body := p.body ++ is } rest

/-- The slots that the children of a component tag fill. -/
def slotBodies (p : SlotParts) : List Node → M SlotParts
  | [] => return p
  | .component "x-slot" attrs children :: rest => do
    let body ← nodes false children
    slotBodies { p with named := p.named ++ [(TagText.slotName attrs, body)] } rest
  | n :: rest => do
    let is ← node false n
    slotBodies { p with default := some (p.default.getD [] ++ is) } rest

end

/-- What a template keeps when it extends a layout: its instructions and its sections. -/
structure LayoutParts where
  kept : List Instruction := []
  sections : List (String × List Instruction) := []

def layoutParts (p : LayoutParts) : List Node → M LayoutParts
  | [] => return p
  | .directive "section" args children :: rest => do
    let (first, more) ← arguments "section" args
    let body ← match more with
      | value :: _ => do
        let e ← expression "@section" value
        pure [Instruction.echo e]
      | [] => nodes false children
    layoutParts { p with sections := p.sections ++ [(Arguments.unquote first, body)] } rest
  | .directive name args children :: rest =>
    if name == "push" || name == "inject" then do
      let is ← node false (.directive name args children)
      layoutParts { p with kept := p.kept ++ is } rest
    else layoutParts p rest
  | _ :: rest => layoutParts p rest

def extends? (ns : List Node) : Option (Option String) :=
  ns.findSome? fun
    | .directive "extends" args _ => some args
    | _ => none

end Compile

namespace Routine

def ofNode (root : Node) : Except CompileError Routine :=
  match Compile.extends? root.children with
  | some args => do
    let (first, _) ← Compile.arguments "extends" args
    let parts ← Compile.layoutParts {} root.children
    return ⟨parts.kept ++ [.extendLayout (Arguments.unquote first) parts.sections]⟩
  | none => do
    let body ← Compile.nodes false root.children
    return ⟨body⟩

def compile (source : String) : Except CompileError Routine :=
  ofNode (Node.parse source)

end Routine

end LiveMarkup
