import LiveMarkup.Routine.Compile
import LiveMarkup.Routine.Render
import LiveMarkup.View.Error

/-!
# Failures

All failures that a user of the library can meet, with the name of their kind. Failures of
application code keep their kind wherever they surface.
-/

namespace LiveMarkup

/-- A script that asks for something that is not there or not of the right kind. -/
inductive Misuse where
  | notAnObject
  | notAList
  | notAContainer
  | noEffect
  | noDefinition (id : String)
  | noStore
  | noInstance
  | noTarget
  | noStatement (name : String)
deriving DecidableEq

def Misuse.message : Misuse → String
  | .notAnObject => "not an object"
  | .notAList => "not a list"
  | .notAContainer => "not a container"
  | .noEffect => "no effect"
  | .noDefinition id => "no definition " ++ id
  | .noStore => "no store"
  | .noInstance => "no instance"
  | .noTarget => "no target"
  | .noStatement name => "no statement " ++ name

inductive Failure where
  | expression (e : ExprError)
  | eval (e : EvalError)
  | compile (e : CompileError)
  | render (e : RenderError)
  | view (e : ViewError)
  | misuse (m : Misuse)
deriving DecidableEq

def ExprError.kind : ExprError → String
  | .unexpectedChar _ _ => "Expr.UnexpectedChar"
  | .unterminatedString => "Expr.UnterminatedString"
  | .unexpectedToken _ _ => "Expr.UnexpectedToken"
  | .unexpectedEnd => "Expr.UnexpectedEnd"
  | .empty => "Expr.Empty"

def ValueError.kind : ValueError → String
  | .notAFunction _ => "Value.NotAFunction"
  | .nullAccess _ _ => "Value.NullAccess"
  | .invalidArgument _ => "Value.InvalidArgument"
  | .circular => "Value.Circular"
  | .custom _ => "Value.Custom"

def EvalError.kind : EvalError → String
  | .reference _ => "Eval.Reference"
  | .type _ => "Eval.Type"
  | .value e => e.kind

def CompileError.kind : CompileError → String
  | .expression _ _ e => "Compile.Expression/" ++ e.kind
  | .missingArgument _ => "Compile.MissingArgument"
  | .misplaced _ _ => "Compile.MisplacedDirective"
  | .invalidForeach _ => "Compile.InvalidForeach"
  | .invalidModelPath _ => "Compile.InvalidModelPath"
  | .invalidInjectName _ => "Compile.InvalidInjectName"
  | .contentBeforeCase => "Compile.ContentBeforeCase"
  | .duplicateDefault => "Compile.DuplicateDefault"

def RenderError.kind : RenderError → String
  | .eval e => e.kind
  | .notIterable _ => "Render.NotIterable"
  | .fragment _ => "Render.Fragment"

def ViewError.kind : ViewError → String
  | .targetNotFound _ => "View.TargetNotFound"
  | .methodNotFound _ => "View.MethodNotFound"
  | .mutationNotFound _ => "View.MutationNotFound"
  | .bindingNotFound _ _ => "View.BindingNotFound"
  | .value e => e.kind
  | .settings _ => "View.Settings"

namespace Failure

def kind : Failure → String
  | .expression e => e.kind
  | .eval e => e.kind
  | .compile e => e.kind
  | .render e => e.kind
  | .view e => e.kind
  | .misuse _ => "driver"

def message : Failure → String
  | .expression e => e.message
  | .eval e => e.message
  | .compile e => e.message
  | .render e => e.message
  | .view e => e.message
  | .misuse m => m.message

def line (f : Failure) : String :=
  f.kind ++ ": " ++ f.message

/-- The failure that a caller of application code sees: its own if it is one, else its wording. -/
def toValueError : Failure → ValueError
  | .eval (.value e) => e
  | .render (.eval (.value e)) => e
  | .view (.value e) => e
  | f => .custom f.message

end Failure

end LiveMarkup
