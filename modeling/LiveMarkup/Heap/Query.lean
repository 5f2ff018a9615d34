import LiveMarkup.Heap.Reading

/-!
# Questions to the heap

A `Query` is one question about values, with a type of answers of its own. Answering looks at
slots; the machine makes the running effect depend on all of them. Because every question a
program can ask is listed here, what a program depends on is decided here too.
-/

namespace LiveMarkup

inductive Query where
  | property (o : ObjectId) (name : String)
  | names (o : ObjectId)
  | entries (o : ObjectId)
  | size (o : ObjectId)
  /-- An item of a list; `undefined` past the end. -/
  | item (l : ListId) (i : Nat)
  | items (l : ListId)
  | length (l : ListId)
  | hostObject (i : HostId)
  | display (v : Value)
  | json (v : Value)
  | number (v : Value)
  | looseEq (a b : Value)
  | classNames (v : Value)
  | styleNames (v : Value)
  | attributesHtml (attrs : Table Value)
  | mergedAttributes (own defaults : Table Value)
  /-- The count after `n`. Counts are 64-bit words, and after the greatest there is none. -/
  | countAfter (n : Nat)

namespace Query

abbrev Answer : Query → Type
  | .property _ _ => Option Value
  | .names _ => List String
  | .entries _ => List (String × Value)
  | .size _ => Nat
  | .item _ _ => Value
  | .items _ => List Value
  | .length _ => Nat
  | .hostObject _ => HostObject
  | .display _ => String
  | .json _ => Except ValueError Json
  | .number _ => Float
  | .looseEq _ _ => Bool
  | .classNames _ => String
  | .styleNames _ => String
  | .attributesHtml _ => String
  | .mergedAttributes _ _ => Table Value
  | .countAfter _ => Nat

def reading (h : Heap) : (q : Query) → Reading q.Answer
  | .property o name => do
    Reading.visit (.property o name)
    return (h.fields o).get? name
  | .names o => do
    Reading.visit (.iteration o)
    return (h.fields o).keys
  | .entries o => h.readEntries o
  | .size o => do
    Reading.visit (.iteration o)
    return (h.fields o).size
  | .item l i => do
    Reading.visit (.item l i)
    return (h.items l).getD i .undefined
  | .items l => h.readItems l
  | .length l => do
    Reading.visit (.length l)
    return (h.items l).length
  | .hostObject i => return h.hostObject i
  | .display v => h.display v
  | .json v => h.json v
  | .number v => h.toNumber v
  | .looseEq a b => h.looseEq a b
  | .classNames v => h.classNames v
  | .styleNames v => h.styleNames v
  | .attributesHtml attrs => Heap.attributesHtml h.display attrs
  | .mergedAttributes own defaults => Heap.mergeAttributes h.display own defaults
  | .countAfter n => if n + 1 < Nat.pow 2 64 then return n + 1 else Reading.overflow

/-- The answer with the slots looked at, in order; none when the value asked about has no written
form, or when there is no such count. -/
def answer (h : Heap) (q : Query) : Option (q.Answer × List Slot) :=
  (q.reading h #[]).map fun r => (r.1, r.2.toList)

/-- Whether a question has no answer because a count has grown beyond a machine word. -/
def overflows : Query → Bool
  | .countAfter n => Nat.pow 2 64 ≤ n + 1
  | _ => false

end Query

end LiveMarkup
