import LiveMarkup.Heap.Reading

/-!
# Snapshots

A snapshot is a value written out as a tree, for somebody who cannot see the heap. A container met
inside itself is marked. Taking a snapshot creates no dependencies.
-/

namespace LiveMarkup

inductive Snapshot where
  | undefined
  | null
  | bool (b : Bool)
  | number (x : Float)
  | text (s : String)
  | list (items : List Snapshot)
  | object (entries : List (String × Snapshot))
  | function (name : String)
  | host (typeName shown : String)
  | cycle
deriving Inhabited

namespace Heap

def shownText (h : Heap) (v : Value) : Option String :=
  (h.display v #[]).map Prod.fst

/-- The tree of a value inside the containers `seen`, nested at most `depth` deep. -/
def snapshotWithin (h : Heap) : Nat → List Container → Value → Option Snapshot
  | 0, _, _ => some .cycle
  | depth + 1, seen, v =>
    match v with
    | .undefined => some .undefined
    | .null => some .null
    | .bool b => some (.bool b)
    | .number x => some (.number x)
    | .text s => some (.text s)
    | .list l =>
      if .list l ∈ seen then some .cycle
      else do
        let items ← (h.items l).mapM (h.snapshotWithin depth (.list l :: seen))
        return .list items
    | .object o =>
      if .object o ∈ seen then some .cycle
      else do
        let entries ← (h.fields o).entries.mapM fun e => do
          let s ← h.snapshotWithin depth (.object o :: seen) e.2
          return (e.1, s)
        return .object entries
    | .function _ name => some (.function name)
    | .host i => do
      let shown ← h.shownText v
      return .host (h.hostObject i).typeName shown

/-- The tree of a value; none when a host object in it has no written form. -/
def snapshot (h : Heap) (v : Value) : Option Snapshot :=
  h.snapshotWithin (h.objects.size + h.lists.size + 2) [] v

end Heap

end LiveMarkup
