import LiveMarkup.Expr.Basic
import LiveMarkup.Reactive.Program
import LiveMarkup.Text.Case
import LiveMarkup.Text.Search

/-!
# Evaluating expressions

Operands are evaluated from left to right. Reading a property of an absent value is an error, and
so is calling what is not a function; nearly everything else has a result. Texts, lists and
numbers have a few methods of their own.

Where names come from, how functions run and what host objects do is not decided here: an
`Environment` supplies it.
-/

namespace LiveMarkup

inductive EvalError where
  | reference (name : String)
  | type (message : String)
  | value (e : ValueError)
deriving DecidableEq

def EvalError.message : EvalError → String
  | .reference name => name ++ " is not defined"
  | .type message => message
  | .value e => e.message

structure Environment (S : Signature) where
  lookup : String → Program S (Option Value)
  apply : FunctionId → List Value → Program S (Except ValueError Value)
  invoke : HostId → String → List Value → Program S (Except ValueError Value)

abbrev Eval (S : Signature) (α : Type) := ExceptT EvalError (Program S) α

namespace Eval

variable {S : Signature}

def ask (q : Query) : Eval S q.Answer :=
  ExceptT.lift (Program.read q)

def display (v : Value) : Eval S String :=
  ask (.display v)

def number (v : Value) : Eval S Float :=
  ask (.number v)

/-- Takes the failure of a function for a failure of the expression. -/
def ofValue (p : Program S (Except ValueError Value)) : Eval S Value :=
  ExceptT.mk do
    match ← p with
    | .ok v => return .ok v
    | .error e => return .error (.value e)

/-! ## Properties -/

def hostProperty (h : HostObject) (key : String) : Value :=
  match h with
  | .plain _ => .undefined
  | .bag attrs => (attrs.get? key).getD .undefined
  | .store _ state => if key == "state" then .object state else .undefined
  | .auth _ => .undefined

/-- The property of a text: its length or one of its characters. -/
def textProperty (s : String) (key : String) : Value :=
  if key == "length" then .ofNat s.length
  else
    match (Decimal.readIndex? key).bind (s.toList[·]?) with
    | some c => .text c.toString
    | none => .undefined

def property (target : Value) (key : String) : Eval S Value :=
  match target with
  | .undefined | .null => do
    let shown ← display target
    throw (.value (.nullAccess shown key))
  | .object o => do
    let v ← ask (.property o key)
    return v.getD .undefined
  | .list l =>
    if key == "length" then do
      let n ← ask (.length l)
      return .ofNat n
    else
      match Decimal.readIndex? key with
      | some i => ask (.item l i)
      | none => return .undefined
  | .text s => return textProperty s key
  | .host i => do
    let h ← ask (.hostObject i)
    return hostProperty h key
  | .function _ name => return if key == "name" then .text name else .undefined
  | .bool _ | .number _ => return .undefined

/-- What stands at a key: a list takes whole numbers for positions, all else goes by the text of
the key. -/
def atKey (target key : Value) : Eval S Value := do
  match target, key with
  | .list l, .number x =>
    if x ≥ 0.0 && Decimal.isIntegral x then ask (.item l (Decimal.toIndex x))
    else
      let k ← display key
      property target k
  | _, _ =>
    let k ← display key
    property target k

/-! ## Methods of texts, lists and numbers -/

/-- The text of an argument; a missing one reads `undefined`. -/
def argText (args : List Value) (i : Nat) : Eval S String :=
  match args[i]? with
  | some v => display v
  | none => return "undefined"

/-- The position that a number means in a sequence of length `len`: negative numbers count from
the end, and what lies outside is brought to the nearer end. -/
def clampIndex (x : Float) (len : Nat) : Nat :=
  if x.isNaN then 0
  else
    let n := Decimal.truncate x
    if n < 0 then (len + n).toNat else min n.toNat len

/-- A position given by an argument, or `fallback` when it is missing. -/
def relativeIndex (v : Option Value) (len fallback : Nat) : Eval S Nat :=
  match v with
  | none | some .undefined => return fallback
  | some v => do
    let x ← number v
    return clampIndex x len

/-- The part from `start` up to but excluding `stop`; nothing when they are out of order. -/
def slice {α : Type} (xs : List α) (start stop : Nat) : List α :=
  (xs.drop start).take (stop - start)

def textMethod (s : String) (name : String) (args : List Value) : Option (Eval S Value) :=
  let cs := s.toList
  match name with
  | "toUpperCase" => some (return .text (Text.toUpper s))
  | "toLowerCase" => some (return .text (Text.toLower s))
  | "trim" => some (return .text (Text.trim s))
  | "toString" => some (return .text s)
  | "includes" => some do
    let needle ← argText args 0
    return .bool (Text.occurs needle.toList cs)
  | "startsWith" => some do
    let needle ← argText args 0
    return .bool (needle.toList.isPrefixOf cs)
  | "endsWith" => some do
    let needle ← argText args 0
    return .bool (Text.endsWith needle.toList cs)
  | "indexOf" => some do
    let needle ← argText args 0
    match Text.indexOf? needle.toList cs with
    | some i => return .ofNat i
    | none => return .number (-1.0)
  | "slice" => some do
    let start ← relativeIndex args[0]? cs.length 0
    let stop ← relativeIndex args[1]? cs.length cs.length
    return .text (String.ofList (slice cs start stop))
  | "split" => some do
    let sep ← argText args 0
    let pieces := (Text.splitOn sep.toList cs).map fun p => Value.text (String.ofList p)
    let l ← ExceptT.lift (Program.newList pieces)
    return .list l
  | _ => none

/-- The text of an item in a joined list: absent items are empty. -/
def itemText (v : Value) : Eval S String :=
  if v.isNullish then return "" else display v

def listMethod (l : ListId) (name : String) (args : List Value) : Option (Eval S Value) :=
  match name with
  | "join" => some do
    let sep ← match args with
      | [] | .undefined :: _ => pure ","
      | sep :: _ => display sep
    let items ← ask (.items l)
    let parts ← items.mapM itemText
    return .text (sep.intercalate parts)
  | "includes" => some do
    let items ← ask (.items l)
    return .bool (items.any (·.strictEq (args.headD .undefined)))
  | "indexOf" => some do
    let items ← ask (.items l)
    match items.findIdx? (·.strictEq (args.headD .undefined)) with
    | some i => return .ofNat i
    | none => return .number (-1.0)
  | "slice" => some do
    let items ← ask (.items l)
    let start ← relativeIndex args[0]? items.length 0
    let stop ← relativeIndex args[1]? items.length items.length
    let l ← ExceptT.lift (Program.newList (slice items start stop))
    return .list l
  | "toString" => some do
    let s ← display (.list l)
    return .text s
  | _ => none

/-- The number of places that `toFixed` is asked for: between none and a hundred. -/
def places (x : Float) : Nat :=
  if x.isFinite then Decimal.toIndex (min (max x 0.0) 100.0) else 0

def numberMethod (x : Float) (name : String) (args : List Value) : Option (Eval S Value) :=
  match name with
  | "toFixed" => some do
    let digits ← match args with
      | v :: _ => do
        let d ← number v
        pure (places d)
      | [] => pure 0
    return .text (Decimal.fixedText x digits)
  | "toString" => some (return .text (Number.text x))
  | _ => none

def notCallable {α : Type} (callee : Expr) : Eval S α :=
  throw (.type (callee.describe ++ " is not a function"))

def callMethod (env : Environment S) (receiver : Value) (name : String) (args : List Value)
    (callee : Expr) : Eval S Value :=
  match receiver with
  | .undefined | .null => do
    let shown ← display receiver
    throw (.value (.nullAccess shown name))
  | .object o => do
    match ← ask (.property o name) with
    | some (.function f _) => ofValue (env.apply f args)
    | _ => notCallable callee
  | .host i => ofValue (env.invoke i name args)
  | .text s => (textMethod s name args).getD (notCallable callee)
  | .list l => (listMethod l name args).getD (notCallable callee)
  | .number x => (numberMethod x name args).getD (notCallable callee)
  | .bool _ | .function _ _ =>
    if name == "toString" then do
      let s ← display receiver
      return .text s
    else notCallable callee

/-! ## Operators -/

def addsAsNumber : Value → Bool
  | .undefined | .null | .bool _ | .number _ => true
  | _ => false

/-- What a value is compared as: containers, functions and host objects as their texts. -/
def comparand (v : Value) : Eval S Value :=
  if v.isPrimitive then return v
  else do
    let s ← display v
    return .text s

/-- The order of two values, if they have one: texts by their characters, all else as numbers. -/
def order (left right : Value) : Eval S (Option Ordering) := do
  let a ← comparand left
  let b ← comparand right
  match a, b with
  | .text s, .text t => return some (if s < t then .lt else if s == t then .eq else .gt)
  | a, b =>
    let x ← number a
    let y ← number b
    return if x < y then some .lt else if x == y then some .eq else if x > y then some .gt else none

def arithmetic (f : Float → Float → Float) (left right : Value) : Eval S Value := do
  let x ← number left
  let y ← number right
  return .number (f x y)

def comparison (holds : Ordering → Bool) (left right : Value) : Eval S Value := do
  let o ← order left right
  return .bool (o.any holds)

def binary (op : BinaryOp) (left right : Value) : Eval S Value :=
  match op with
  | .add =>
    if addsAsNumber left && addsAsNumber right then arithmetic (· + ·) left right
    else do
      let a ← display left
      let b ← display right
      return .text (a ++ b)
  | .subtract => arithmetic (· - ·) left right
  | .multiply => arithmetic (· * ·) left right
  | .divide => arithmetic (· / ·) left right
  | .remainder => arithmetic Decimal.remainder left right
  | .less => comparison (· == .lt) left right
  | .lessEqual => comparison (· != .gt) left right
  | .greater => comparison (· == .gt) left right
  | .greaterEqual => comparison (· != .lt) left right
  | .looseEqual => do
    let b ← ask (.looseEq left right)
    return .bool b
  | .looseNotEqual => do
    let b ← ask (.looseEq left right)
    return .bool !b
  | .strictEqual => return .bool (left.strictEq right)
  | .strictNotEqual => return .bool !(left.strictEq right)

def unary (op : UnaryOp) (v : Value) : Eval S Value :=
  match op with
  | .not => return .bool !v.isTruthy
  | .negate => do
    let x ← number v
    return .number (-x)
  | .plus => do
    let x ← number v
    return .number x
  | .typeof => return .text v.typeName

/-- Whether a logical operator is decided by its left operand. -/
def decided (op : LogicalOp) (left : Value) : Bool :=
  match op with
  | .and => !left.isTruthy
  | .or => left.isTruthy
  | .nullish => !left.isNullish

def isName : Expr → Bool
  | .name _ => true
  | _ => false

end Eval

namespace Expr

variable {S : Signature}

open Eval

mutual

def eval (env : Environment S) : Expr → Eval S Value
  | .undefined => return .undefined
  | .null => return .null
  | .bool b => return .bool b
  | .number x => return .number x
  | .text s => return .text s
  | .name n => do
    match ← ExceptT.lift (env.lookup n) with
    | some v => return v
    | none => throw (.reference n)
  | .list items => do
    let values ← evalAll env items
    let l ← ExceptT.lift (Program.newList values)
    return .list l
  | .object entries => do
    let values ← evalEntries env entries
    let o ← ExceptT.lift (Program.newObject (.ofList values))
    return .object o
  | .member target key => do
    let v ← target.eval env
    property v key
  | .index target key => do
    let v ← target.eval env
    let k ← key.eval env
    atKey v k
  | .call (.member target key) args => do
    let receiver ← target.eval env
    let values ← evalAll env args
    callMethod env receiver key values (.member target key)
  | .call callee args => do
    let v ← callee.eval env
    let values ← evalAll env args
    match v with
    | .function f _ => ofValue (env.apply f values)
    | _ => notCallable callee
  | .unary .typeof operand =>
    tryCatch
      (do
        let v ← operand.eval env
        Eval.unary .typeof v)
      fun e =>
        match e with
        | .reference _ => if isName operand then return .text "undefined" else throw e
        | _ => throw e
  | .unary op operand => do
    let v ← operand.eval env
    Eval.unary op v
  | .binary op left right => do
    let a ← left.eval env
    let b ← right.eval env
    Eval.binary op a b
  | .logical op left right => do
    let a ← left.eval env
    if decided op a then return a else right.eval env
  | .conditional test yes no => do
    let t ← test.eval env
    if t.isTruthy then yes.eval env else no.eval env

def evalAll (env : Environment S) : List Expr → Eval S (List Value)
  | [] => return []
  | e :: rest => do
    let v ← e.eval env
    let vs ← evalAll env rest
    return v :: vs

/-- The values of the entries of an object, from left to right. -/
def evalEntries (env : Environment S) : List (String × Expr) → Eval S (List (String × Value))
  | [] => return []
  | (key, e) :: rest => do
    let v ← e.eval env
    let vs ← evalEntries env rest
    return (key, v) :: vs

end

end Expr

end LiveMarkup
