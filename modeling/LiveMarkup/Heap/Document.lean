import LiveMarkup.Heap.Basic
import LiveMarkup.Json

/-!
# Loading a document

A JSON document becomes a value in a heap. Scalars become scalars, and every array and every object
becomes a container of its own, built after the containers inside it; no two places of a document
share one.
-/

namespace LiveMarkup

namespace Heap

mutual

/-- The value of a document, and the heap with the containers it needs. -/
def ofJson (h : Heap) : Json → Value × Heap
  | .null => (.null, h)
  | .bool b => (.bool b, h)
  | .int n => (.number (Float.ofInt n), h)
  | .float x => (.number x, h)
  | .text s => (.text s, h)
  | .array items =>
    let (values, h) := ofJsonItems h items
    let (l, h) := h.newList values
    (.list l, h)
  | .object members =>
    let (entries, h) := ofJsonMembers h members
    let (o, h) := h.newObject (.ofList entries)
    (.object o, h)

def ofJsonItems (h : Heap) : List Json → List Value × Heap
  | [] => ([], h)
  | item :: rest =>
    let (v, h) := ofJson h item
    let (vs, h) := ofJsonItems h rest
    (v :: vs, h)

def ofJsonMembers (h : Heap) : List (String × Json) → List (String × Value) × Heap
  | [] => ([], h)
  | (key, item) :: rest =>
    let (v, h) := ofJson h item
    let (entries, h) := ofJsonMembers h rest
    ((key, v) :: entries, h)

end

end Heap

end LiveMarkup
