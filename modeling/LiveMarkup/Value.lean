import LiveMarkup.Table
import LiveMarkup.Decimal.Binary

/-!
# Values

Everything a template can read is a `Value`. Containers, functions and host objects are named by
identifiers into the heap: two of them are the same value exactly when they have the same
identifier, whatever they hold. Absence comes in two kinds, `undefined` and `null`.
-/

namespace LiveMarkup

structure ListId where
  index : Nat
deriving DecidableEq, Inhabited

structure ObjectId where
  index : Nat
deriving DecidableEq, Inhabited

structure FunctionId where
  index : Nat
deriving DecidableEq, Inhabited

structure HostId where
  index : Nat
deriving DecidableEq, Inhabited

structure StoreId where
  index : Nat
deriving DecidableEq, Inhabited

/-- A value that templates can see. A function carries its name because the name is printed. -/
inductive Value where
  | undefined
  | null
  | bool (b : Bool)
  | number (x : Float)
  | text (s : String)
  | list (l : ListId)
  | object (o : ObjectId)
  | function (f : FunctionId) (name : String)
  | host (h : HostId)
deriving Inhabited

/-- Failures of functions, methods and host objects. -/
inductive ValueError where
  | notAFunction (what : String)
  | nullAccess (target key : String)
  | invalidArgument (what : String)
  /-- A container reached itself on the way to its written form. -/
  | circular
  | custom (message : String)
deriving DecidableEq, Inhabited

def ValueError.message : ValueError → String
  | .notAFunction what => what ++ " is not a function"
  | .nullAccess target key =>
    "Cannot read properties of " ++ target ++ " (reading '" ++ key ++ "')"
  | .invalidArgument what => "Invalid argument: " ++ what
  | .circular => "Converting circular structure to JSON"
  | .custom message => message

namespace Value

def isNullish : Value → Bool
  | .undefined | .null => true
  | _ => false

/-- Whether a condition on the value holds: absence, `false`, zero, NaN and the empty text do
not. -/
def isTruthy : Value → Bool
  | .undefined | .null => false
  | .bool b => b
  | .number x => x != 0.0 && !x.isNaN
  | .text s => !s.isEmpty
  | .list _ | .object _ | .function _ _ | .host _ => true

def typeName : Value → String
  | .undefined => "undefined"
  | .null | .list _ | .object _ | .host _ => "object"
  | .bool _ => "boolean"
  | .number _ => "number"
  | .text _ => "string"
  | .function _ _ => "function"

/-- Values without an identity of their own. -/
def isPrimitive : Value → Bool
  | .undefined | .null | .bool _ | .number _ | .text _ => true
  | _ => false

/-- Strict equality: primitives by content (so NaN differs from itself), all else by identity. -/
def strictEq : Value → Value → Bool
  | .undefined, .undefined => true
  | .null, .null => true
  | .bool a, .bool b => a == b
  | .number a, .number b => a == b
  | .text a, .text b => a == b
  | .list a, .list b => a == b
  | .object a, .object b => a == b
  | .function a _, .function b _ => a == b
  | .host a, .host b => a == b
  | _, _ => false

def ofBit (b : Bool) : Float :=
  if b then 1.0 else 0.0

def ofNat (n : Nat) : Value :=
  .number n.toUInt64.toFloat

end Value

inductive HostObject where
  | plain (typeName : String)
  | bag (attrs : Table Value)
  | store (id : StoreId) (state : ObjectId)
  /-- Questions about the signed-in user of a store. -/
  | auth (state : ObjectId)

def HostObject.typeName : HostObject → String
  | .plain name => name
  | .bag _ => "AttributeBag"
  | .store _ _ => "Store"
  | .auth _ => "Auth"

end LiveMarkup
