import LiveMarkup.Value

/-!
# The heap

Objects, lists and host objects live in the heap and are reached through identifiers. Nothing is
ever removed, so an identifier once handed out stays good, and a new one is the number of cells
so far. Reading through an identifier that was never handed out finds an empty container.

A `Slot` is the part of a container that a reader can depend on: one property of an object, one
position or the length of a list, or the enumeration of an object's names.
-/

namespace LiveMarkup

structure Heap where
  objects : Array (Table Value) := #[]
  lists : Array (List Value) := #[]
  hosts : Array HostObject := #[]

/-- What readers can depend on: an object or a list. -/
inductive Container where
  | object (o : ObjectId)
  | list (l : ListId)
deriving DecidableEq

inductive Key where
  /-- A property by name; list positions count under their decimal text. -/
  | property (name : String)
  /-- Which names there are. -/
  | iteration
deriving DecidableEq

structure Slot where
  container : Container
  key : Key
deriving DecidableEq

namespace Slot

def property (o : ObjectId) (name : String) : Slot :=
  ⟨.object o, .property name⟩

def iteration (o : ObjectId) : Slot :=
  ⟨.object o, .iteration⟩

def item (l : ListId) (i : Nat) : Slot :=
  ⟨.list l, .property (toString i)⟩

def length (l : ListId) : Slot :=
  ⟨.list l, .property "length"⟩

end Slot

namespace Heap

def empty : Heap := {}

instance : Inhabited Heap := ⟨empty⟩

def fields (h : Heap) (o : ObjectId) : Table Value :=
  h.objects.getD o.index .empty

def items (h : Heap) (l : ListId) : List Value :=
  h.lists.getD l.index []

def hostObject (h : Heap) (i : HostId) : HostObject :=
  h.hosts.getD i.index (.plain "")

def newObject (h : Heap) (fields : Table Value) : ObjectId × Heap :=
  (⟨h.objects.size⟩, { h with objects := h.objects.push fields })

def newList (h : Heap) (items : List Value) : ListId × Heap :=
  (⟨h.lists.size⟩, { h with lists := h.lists.push items })

def newHost (h : Heap) (host : HostObject) : HostId × Heap :=
  (⟨h.hosts.size⟩, { h with hosts := h.hosts.push host })

def setFields (h : Heap) (o : ObjectId) (fields : Table Value) : Heap :=
  { h with objects := h.objects.setIfInBounds o.index fields }

def setItems (h : Heap) (l : ListId) (items : List Value) : Heap :=
  { h with lists := h.lists.setIfInBounds l.index items }

end Heap

end LiveMarkup
