import LiveMarkup.Heap.Basic

/-!
# Changes to the heap

An `Update` is one change to one container. Carrying it out gives the new heap, a result, and the
slots whose readers have to hear of it, in the order in which they are told. A write that stores
what is already there changes nothing and tells nobody.
-/

namespace LiveMarkup

inductive Update where
  | set (o : ObjectId) (name : String) (v : Value)
  | remove (o : ObjectId) (name : String)
  /-- Writes a position; a list too short for it grows with `undefined`. -/
  | setItem (l : ListId) (i : Nat) (v : Value)
  | push (l : ListId) (v : Value)
  | pop (l : ListId)
  /-- Adds an item before a position, or at the end when there is no such position. -/
  | insertItem (l : ListId) (i : Nat) (v : Value)
  | removeItem (l : ListId) (i : Nat)
  | clear (l : ListId)

namespace Update

/-- What a change results in: removals give what they removed. -/
abbrev Result : Update → Type
  | .remove _ _ => Option Value
  | .pop _ => Option Value
  | .removeItem _ _ => Option Value
  | .set _ _ _ => Unit
  | .setItem _ _ _ => Unit
  | .push _ _ => Unit
  | .insertItem _ _ _ => Unit
  | .clear _ => Unit

/-- The positions from `start` up to but excluding `stop`, and then the length. -/
def movedSlots (l : ListId) (start stop : Nat) : List Slot :=
  (List.range' start (stop - start)).map (Slot.item l) ++ [Slot.length l]

/-- The items after an item is written at `i`, past the end if need be. -/
def written (items : List Value) (i : Nat) (v : Value) : List Value :=
  if i < items.length then items.set i v
  else items ++ List.replicate (i - items.length) .undefined ++ [v]

/-- Carries out a change: its result, the new heap, and the slots that changed. -/
def apply (h : Heap) : (u : Update) → u.Result × Heap × List Slot
  | .set o name v =>
    let fields := h.fields o
    match fields.get? name with
    | some old =>
      if old.strictEq v then ((), h, [])
      else ((), h.setFields o (fields.insert name v), [.property o name])
    | none => ((), h.setFields o (fields.insert name v), [.property o name, .iteration o])
  | .remove o name =>
    let fields := h.fields o
    match fields.get? name with
    | some old =>
      (some old, h.setFields o (fields.erase name), [.property o name, .iteration o])
    | none => (none, h, [])
  | .setItem l i v =>
    let items := h.items l
    match items[i]? with
    | some old =>
      if old.strictEq v then ((), h, [])
      else ((), h.setItems l (written items i v), [.item l i])
    | none => ((), h.setItems l (written items i v), movedSlots l items.length (i + 1))
  | .push l v =>
    let items := h.items l
    ((), h.setItems l (items ++ [v]), movedSlots l items.length (items.length + 1))
  | .pop l =>
    let items := h.items l
    match items.getLast? with
    | some last => (some last, h.setItems l items.dropLast, movedSlots l (items.length - 1) items.length)
    | none => (none, h, [])
  | .insertItem l i v =>
    let items := h.items l
    let i := min i items.length
    ((), h.setItems l (items.take i ++ v :: items.drop i), movedSlots l i (items.length + 1))
  | .removeItem l i =>
    let items := h.items l
    match items[i]? with
    | some old => (some old, h.setItems l (items.eraseIdx i), movedSlots l i items.length)
    | none => (none, h, [])
  | .clear l =>
    let items := h.items l
    if items.isEmpty then ((), h, []) else ((), h.setItems l [], movedSlots l 0 items.length)

end Update

end LiveMarkup
