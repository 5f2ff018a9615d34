import LiveMarkup.Heap.Basic

/-!
# Who depends on what

The registry of dependencies: for every slot the effects subscribed to it, in the order in which
they subscribed, and for every effect the slots it depends on, in the order in which it read them.
The two indexes tell the same story, and neither keeps an empty list of subscribers.
-/

namespace LiveMarkup

structure EffectId where
  index : Nat
deriving DecidableEq, Inhabited

namespace Assoc

variable {κ α : Type} [DecidableEq κ]

/-- The list kept at a key; a key that is not there keeps the empty list. -/
def get (m : List (κ × List α)) (k : κ) : List α :=
  (m.lookup k).getD []

def push (m : List (κ × List α)) (k : κ) (a : α) : List (κ × List α) :=
  match m with
  | [] => [(k, [a])]
  | (k', as) :: rest => if k' = k then (k', as ++ [a]) :: rest else (k', as) :: push rest k a

end Assoc

structure Registry where
  subscribers : List (Slot × List EffectId) := []
  dependencies : List (EffectId × List Slot) := []

namespace Registry

def empty : Registry := {}

instance : Inhabited Registry := ⟨empty⟩

/-- Effects subscribed to a slot, in subscription order. -/
def subscribersOf (r : Registry) (s : Slot) : List EffectId :=
  Assoc.get r.subscribers s

/-- Slots an effect depends on, in the order of their first read. -/
def dependenciesOf (r : Registry) (e : EffectId) : List Slot :=
  Assoc.get r.dependencies e

def track (r : Registry) (e : EffectId) (s : Slot) : Registry :=
  if e ∈ r.subscribersOf s then r
  else
    { subscribers := Assoc.push r.subscribers s e
      dependencies := Assoc.push r.dependencies e s }

/-- Takes an effect off every subscriber list that the slots name; lists that become empty go. -/
def unsubscribe (e : EffectId) (slots : List Slot) (m : List (Slot × List EffectId)) :
    List (Slot × List EffectId) :=
  m.filterMap fun (s, es) =>
    if s ∈ slots then
      let kept := es.filter (· ≠ e)
      if kept.isEmpty then none else some (s, kept)
    else some (s, es)

def clearDependencies (r : Registry) (e : EffectId) : Registry :=
  { subscribers := unsubscribe e (r.dependenciesOf e) r.subscribers
    dependencies := r.dependencies.filter (·.1 ≠ e) }

/-- Forgets everything that depends on a container. Only the effects found on its subscriber lists
have something to forget. -/
def removeTarget (r : Registry) (c : Container) : Registry :=
  let removed := (r.subscribers.filter (·.1.container = c)).flatMap (·.2)
  { subscribers := r.subscribers.filter (·.1.container ≠ c)
    dependencies := r.dependencies.map fun d =>
      if d.1 ∈ removed then (d.1, d.2.filter (·.container ≠ c)) else d }

def hasTarget (r : Registry) (c : Container) : Bool :=
  r.subscribers.any (·.1.container = c)

end Registry

end LiveMarkup
