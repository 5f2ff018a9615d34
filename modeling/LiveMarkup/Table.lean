/-!
# Tables that remember insertion order

A `Table` maps texts to values and keeps the order in which names first arrived: writing a name
that is already there changes its value and not its place, and a new name goes to the end. Order
shows wherever a table is printed, so it is part of the data.
-/

namespace LiveMarkup

/-- An insertion-ordered map from names to values. -/
structure Table (α : Type) where
  entries : List (String × α)

namespace Table

variable {α β : Type}

def empty : Table α := ⟨[]⟩

instance : Inhabited (Table α) := ⟨empty⟩
instance : EmptyCollection (Table α) := ⟨empty⟩

def get? (t : Table α) (k : String) : Option α :=
  t.entries.lookup k

def contains (t : Table α) (k : String) : Bool :=
  (t.get? k).isSome

def keys (t : Table α) : List String :=
  t.entries.map Prod.fst

def size (t : Table α) : Nat :=
  t.entries.length

def isEmpty (t : Table α) : Bool :=
  t.entries.isEmpty

/-- Writes `v` at `k` in a list of entries: in place when `k` is there, else at the end. -/
def put (k : String) (v : α) : List (String × α) → List (String × α)
  | [] => [(k, v)]
  | (k', v') :: rest => if k' == k then (k, v) :: rest else (k', v') :: put k v rest

def insert (t : Table α) (k : String) (v : α) : Table α :=
  ⟨put k v t.entries⟩

/-- Removes a name; the others keep their order. -/
def erase (t : Table α) (k : String) : Table α :=
  ⟨t.entries.filter (·.1 != k)⟩

def insertAll (t : Table α) (entries : List (String × α)) : Table α :=
  entries.foldl (fun t e => t.insert e.1 e.2) t

/-- The table of a list of entries: a repeated name keeps its first place and its last value. -/
def ofList (entries : List (String × α)) : Table α :=
  empty.insertAll entries

def map (f : α → β) (t : Table α) : Table β :=
  ⟨t.entries.map fun e => (e.1, f e.2)⟩

def Distinct (t : Table α) : Prop :=
  t.keys.Nodup

end Table

end LiveMarkup
