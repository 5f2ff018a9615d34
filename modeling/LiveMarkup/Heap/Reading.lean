import LiveMarkup.Heap.Basic
import LiveMarkup.Value.Number
import LiveMarkup.Json
import LiveMarkup.Text.Escape

/-!
# Written forms of values

Turning a value into text or into JSON looks at containers, and whoever asked depends on what was
looked at. A `Reading` is such a look: it gives a result together with the slots it visited, in
order.

Containers can be cyclic. A list that is met while it is being printed prints as nothing, and a
container that is met inside its own JSON form is an error. Attribute bags start afresh: a bag
does not know what is being printed around it. A bag that can be reached from its own attributes
therefore has no written form at all, and a reading of it gives no result. Nesting can be no
deeper than containers and bags allow, which bounds the recursion.
-/

namespace LiveMarkup

/-- A look at the heap that notes the slots it visits. It may have no result. -/
abbrev Reading (α : Type) := StateT (Array Slot) Option α

namespace Reading

def visit (s : Slot) : Reading Unit :=
  modify (·.push s)

/-- What is being written comes round to itself and has no written form. -/
def endless {α : Type} : Reading α :=
  fun _ => none

/-- A count has grown beyond a machine word. -/
def overflow {α : Type} : Reading α :=
  fun _ => none

end Reading

namespace Heap

/-- The items of a list; its length and every position are visited. -/
def readItems (h : Heap) (l : ListId) : Reading (List Value) := do
  Reading.visit (.length l)
  (List.range (h.items l).length).forM fun i => Reading.visit (.item l i)
  return h.items l

/-- The entries of an object; its enumeration and every name are visited. -/
def readEntries (h : Heap) (o : ObjectId) : Reading (List (String × Value)) := do
  Reading.visit (.iteration o)
  (h.fields o).keys.forM fun k => Reading.visit (.property o k)
  return (h.fields o).entries

/-- How deep the written form of a value can nest: along one path every bag is entered at most
once, and between two bags every container at most once. -/
def nesting (h : Heap) : Nat :=
  (h.hosts.size + 1) * (h.objects.size + h.lists.size + 2)

/-- One attribute of a tag: `true` is the bare name, absence and `false` are left out, and all
else is a quoted text. -/
def attributeHtml (display : Value → Reading String) (name : String) :
    Value → Reading (Option String)
  | .bool true => return some name
  | .bool false | .null | .undefined => return none
  | v => do
    let s ← display v
    return some (name ++ "=\"" ++ Text.escapeHtml s ++ "\"")

/-- Attributes of a tag with blanks between them. -/
def attributesHtml (display : Value → Reading String) (attrs : Table Value) : Reading String := do
  let parts ← attrs.entries.mapM fun e => attributeHtml display e.1 e.2
  return " ".intercalate (parts.filterMap id)

/-- The joined class of two sets of attributes: the defaults come first. -/
def joinedClass (display : Value → Reading String) (own defaults : Table Value) :
    Reading (Option String) :=
  match defaults.get? "class", own.get? "class" with
  | some first, some second => do
    let a ← display first
    let b ← display second
    return some (a ++ " " ++ b)
  | _, _ => return none

/-- Attributes laid over defaults. Where both have a class, the classes are joined. -/
def mergeAttributes (display : Value → Reading String) (own defaults : Table Value) :
    Reading (Table Value) := do
  let merged := defaults.insertAll own.entries
  match ← joinedClass display own defaults with
  | some joined => return merged.insert "class" (.text joined)
  | none => return merged

/-- The text of a value inside the lists `seen`, nested at most `depth` deep. -/
def displayWithin (h : Heap) : Nat → List ListId → Value → Reading String
  | 0, _, _ => Reading.endless
  | depth + 1, seen, v =>
    match v with
    | .undefined => return "undefined"
    | .null => return "null"
    | .bool b => return if b then "true" else "false"
    | .number x => return Number.text x
    | .text s => return s
    | .list l =>
      if l ∈ seen then return ""
      else do
        let items ← h.readItems l
        let parts ← items.mapM fun item =>
          if item.isNullish then pure "" else h.displayWithin depth (l :: seen) item
        return ",".intercalate parts
    | .object _ => return "[object Object]"
    | .function _ name => return "function " ++ name ++ "() \x7b [native code] \x7d"
    | .host i =>
      match h.hostObject i with
      | .bag attrs => attributesHtml (h.displayWithin depth []) attrs
      | _ => return "[object Object]"

def display (h : Heap) (v : Value) : Reading String :=
  h.displayWithin h.nesting [] v

/-- Failing readings: errors keep what was visited before them. -/
abbrev JsonReading (α : Type) := ExceptT ValueError Reading α

/-- The form of a value that may have none: `null` stands in for it. -/
def orNull (form : JsonReading Json) : JsonReading Json :=
  tryCatch form fun _ => pure .null

/-- The JSON form of a value inside the containers `seen`, nested at most `depth` deep. Absence
and functions become `null`, or are left out when they are fields. -/
def jsonWithin (h : Heap) : Nat → List Container → Value → JsonReading Json
  | 0, _, _ => (Reading.endless : Reading _)
  | depth + 1, seen, v =>
    match v with
    | .undefined | .null | .function _ _ => return .null
    | .bool b => return .bool b
    | .number x => return .ofNumber x
    | .text s => return .text s
    | .list l =>
      if .list l ∈ seen then throw .circular
      else do
        let items ← h.readItems l
        let forms ← items.mapM (h.jsonWithin depth (.list l :: seen))
        return .array forms
    | .object o =>
      if .object o ∈ seen then throw .circular
      else do
        let entries ← h.readEntries o
        let kept := entries.filter fun e =>
          match e.2 with
          | .undefined | .function _ _ => false
          | _ => true
        let members ← kept.mapM fun e => do
          let form ← h.jsonWithin depth (.object o :: seen) e.2
          return (e.1, form)
        return .object members
    | .host i =>
      match h.hostObject i with
      | .bag attrs => do
        let members ← attrs.entries.mapM fun e => do
          let form ← orNull (h.jsonWithin depth [] e.2)
          return (e.1, form)
        return .object members
      | _ => return .object []

/-- The JSON form of a value, or the failure that it has none. -/
def json (h : Heap) (v : Value) : Reading (Except ValueError Json) :=
  (h.jsonWithin h.nesting [] v).run

def toNumber (h : Heap) : Value → Reading Float
  | .undefined => return 0.0 / 0.0
  | .null => return 0.0
  | .bool b => return Value.ofBit b
  | .number x => return x
  | .text s => return Number.ofText s
  | .list l => do
    let s ← h.display (.list l)
    return Number.ofText s
  | .object _ | .function _ _ | .host _ => return 0.0 / 0.0

/-- The primitive that a value is compared as: booleans as numbers, containers as their text. -/
def toPrimitive (h : Heap) : Value → Reading Value
  | .bool b => return .number (Value.ofBit b)
  | .undefined => return .undefined
  | .null => return .null
  | .number x => return .number x
  | .text s => return .text s
  | v => do
    let s ← h.display v
    return .text s

/-- Equality of primitives that are neither absent nor boolean: a number and a text are compared
as numbers. -/
def primitiveEq : Value → Value → Bool
  | .number a, .text b => a == Number.ofText b
  | .text a, .number b => Number.ofText a == b
  | a, b => a.strictEq b

/-- Loose equality. Absent values equal each other and nothing else; two values with identities
are compared by identity; otherwise both are taken as primitives. -/
def looseEq (h : Heap) (a b : Value) : Reading Bool :=
  if a.isNullish || b.isNullish then return a.isNullish && b.isNullish
  else if !a.isPrimitive && !b.isPrimitive then return a.strictEq b
  else do
    let p ← h.toPrimitive a
    let q ← h.toPrimitive b
    return primitiveEq p q

def trueFlags (h : Heap) (o : ObjectId) : Reading (List String) := do
  let entries ← h.readEntries o
  return (entries.filter (·.2.isTruthy)).map Prod.fst

/-- The classes that one item of a list contributes: a text itself, an object its true flags. -/
def itemClasses (h : Heap) : Value → Reading (List String)
  | .text s => return [s]
  | .object o => h.trueFlags o
  | _ => return []

def classNames (h : Heap) : Value → Reading String
  | .text s => return s
  | .list l => do
    let items ← h.readItems l
    let parts ← items.mapM h.itemClasses
    return " ".intercalate parts.flatten
  | .object o => do
    let flags ← h.trueFlags o
    return " ".intercalate flags
  | _ => return ""

def styleNames (h : Heap) : Value → Reading String
  | .object o => do
    let entries ← h.readEntries o
    let parts ← (entries.filter (·.2.isTruthy)).mapM fun e => do
      let s ← h.display e.2
      return e.1 ++ ": " ++ s
    return "; ".intercalate parts
  | _ => return ""

end Heap

end LiveMarkup
