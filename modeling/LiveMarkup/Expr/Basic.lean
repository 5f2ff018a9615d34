import LiveMarkup.Value

/-!
# Expressions

What stands between `{{` and `}}`, in the arguments of directives and in dynamic attributes:
literals, names, property and index access, calls, operators, conditionals, and literals of lists
and objects.
-/

namespace LiveMarkup

/-- Operators before an operand. -/
inductive UnaryOp where
  | not
  | negate
  | plus
  | typeof
deriving DecidableEq

/-- Operators that evaluate both operands. -/
inductive BinaryOp where
  | add
  | subtract
  | multiply
  | divide
  | remainder
  | less
  | lessEqual
  | greater
  | greaterEqual
  | looseEqual
  | looseNotEqual
  | strictEqual
  | strictNotEqual
deriving DecidableEq

/-- Operators that may leave out their right operand. -/
inductive LogicalOp where
  | and
  | or
  | nullish
deriving DecidableEq

inductive Expr where
  | undefined
  | null
  | bool (b : Bool)
  | number (x : Float)
  | text (s : String)
  | name (n : String)
  | list (items : List Expr)
  | object (entries : List (String × Expr))
  | member (target : Expr) (property : String)
  | index (target key : Expr)
  | call (callee : Expr) (args : List Expr)
  | unary (op : UnaryOp) (operand : Expr)
  | binary (op : BinaryOp) (left right : Expr)
  | logical (op : LogicalOp) (left right : Expr)
  | conditional (test yes no : Expr)
deriving Inhabited

namespace Expr

/-- How messages refer to an expression: names and accesses are spelled out, the rest is an
intermediate value. -/
def describe : Expr → String
  | .name n => n
  | .member target property => target.describe ++ "." ++ property
  | .index target _ => target.describe ++ "[...]"
  | .call callee _ => callee.describe ++ "(...)"
  | _ => "(intermediate value)"

/-- The dotted path that an expression spells, if it is a chain of names. -/
def path? : Expr → Option String
  | .name n => some n
  | .member target property => target.path?.map fun p => p ++ "." ++ property
  | _ => none

end Expr

inductive ExprError where
  /-- No token starts with this character; the offset counts bytes. -/
  | unexpectedChar (c : Char) (offset : Nat)
  | unterminatedString
  | unexpectedToken (found expected : String)
  | unexpectedEnd
  | empty
deriving DecidableEq

def ExprError.message : ExprError → String
  | .unexpectedChar c offset =>
    "Unexpected character '" ++ c.toString ++ "' at offset " ++ toString offset
  | .unterminatedString => "Unterminated string literal"
  | .unexpectedToken found expected =>
    "Unexpected token '" ++ found ++ "', expected " ++ expected
  | .unexpectedEnd => "Unexpected end of expression"
  | .empty => "Empty expression"

end LiveMarkup
