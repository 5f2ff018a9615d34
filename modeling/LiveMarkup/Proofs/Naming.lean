import LiveMarkup.Heap.Query
import Mathlib.Data.List.Forall2
import Mathlib.Data.Set.Basic

/-!
# The same up to names

Containers, host objects and functions are known by names, and the name of a new one tells only how
many there were before. Two runs that differ in how much was created earlier therefore end in values
that differ in names and in nothing else. A `Naming` says which name of one run corresponds to which
name of the other, one to one, and values, tables and heaps are related accordingly.

The identity on a set of names is a naming as well: a value related to itself under it mentions only
names of the set.
-/

namespace LiveMarkup

open List Table

variable {β : Naming}

/-- Whatever has an identity. -/
inductive Ref where
  | object (o : ObjectId)
  | list (l : ListId)
  | host (i : HostId)
  | function (f : FunctionId)
  | store (id : StoreId)
deriving DecidableEq

/-- Which names of one run correspond to which names of another. -/
structure Naming where
  rel : Ref → Ref → Prop
  unique : ∀ {a b a' b'}, rel a b → rel a' b' → (a = a' ↔ b = b')

def Naming.same (K : Set Ref) : Naming where
  rel a b := a ∈ K ∧ a = b
  unique := by
    rintro a b a' b' ⟨-, rfl⟩ ⟨-, rfl⟩
    rfl

lemma Naming.mem_iff (ref : α → Ref) (hinj : Function.Injective ref)
    (h : Forall₂ (fun a a' => β.rel (ref a) (ref a')) as as') (ha : β.rel (ref a) (ref a')) :
    a ∈ as ↔ a' ∈ as' := by
  have hone : Relator.BiUnique fun a a' : α => β.rel (ref a) (ref a') := by
    refine ⟨?_, ?_⟩
    · intro x y z hx hy
      exact hinj ((β.unique hx hy).mpr rfl)
    · intro x y z hx hy
      exact hinj ((β.unique hx hy).mp rfl)
  exact rel_mem hone ha h

/-! ## Values -/

/-- Equal values up to names. -/
inductive Value.Rel (β : Naming) : Value → Value → Prop
  | undefined : Rel β .undefined .undefined
  | null : Rel β .null .null
  | bool (b : Bool) : Rel β (.bool b) (.bool b)
  | number (x : Float) : Rel β (.number x) (.number x)
  | text (s : String) : Rel β (.text s) (.text s)
  | list (h : β.rel (.list l) (.list l')) : Rel β (.list l) (.list l')
  | object (h : β.rel (.object o) (.object o')) : Rel β (.object o) (.object o')
  | function (h : β.rel (.function f) (.function f')) (name : String) :
      Rel β (.function f name) (.function f' name)
  | host (h : β.rel (.host i) (.host i')) : Rel β (.host i) (.host i')

namespace Value.Rel

section

variable (h : Value.Rel β v v')
include h

lemma isNullish : v.isNullish = v'.isNullish := by
  cases h <;> rfl

lemma isTruthy : v.isTruthy = v'.isTruthy := by
  cases h <;> rfl

lemma isPrimitive : v.isPrimitive = v'.isPrimitive := by
  cases h <;> rfl

lemma typeName : v.typeName = v'.typeName := by
  cases h <;> rfl

/-- Identity is kept both ways, because the correspondence is one to one. -/
lemma strictEq (hu : Value.Rel β u u') : v.strictEq u = v'.strictEq u' := by
  cases h with
  | list h =>
    cases hu with
    | list hu => simpa [Value.strictEq, Bool.beq_eq_decide_eq] using β.unique h hu
    | _ => rfl
  | object h =>
    cases hu with
    | object hu => simpa [Value.strictEq, Bool.beq_eq_decide_eq] using β.unique h hu
    | _ => rfl
  | function h =>
    cases hu with
    | function hu => simpa [Value.strictEq, Bool.beq_eq_decide_eq] using β.unique h hu
    | _ => rfl
  | host h =>
    cases hu with
    | host hu => simpa [Value.strictEq, Bool.beq_eq_decide_eq] using β.unique h hu
    | _ => rfl
  | _ => cases hu <;> rfl

lemma eq_of_isPrimitive (hp : v.isPrimitive = true) : v = v' := by
  cases h with
  | undefined | null | bool | number | text => rfl
  | _ => cases hp

end

lemma of_isPrimitive (hp : v.isPrimitive = true) : Value.Rel β v v := by
  cases v with
  | undefined => exact .undefined
  | null => exact .null
  | bool b => exact .bool b
  | number x => exact .number x
  | text s => exact .text s
  | _ => cases hp

lemma mono (hle : ∀ {a b}, β.rel a b → γ.rel a b) (h : Value.Rel β v v') : Value.Rel γ v v' := by
  cases h with
  | list h => exact .list (hle h)
  | object h => exact .object (hle h)
  | function h name => exact .function (hle h) name
  | host h => exact .host (hle h)
  | _ => exact .of_isPrimitive rfl

lemma eq_of_same (h : Value.Rel (.same K) v v') : v = v' := by
  cases h with
  | list h | object h | function h | host h => cases h.2; rfl
  | _ => rfl

end Value.Rel

/-! ## Tables -/

lemma optionRel_getD (h : Option.Rel R x x') (hd : R d d') : R (x.getD d) (x'.getD d') := by
  cases h with
  | some h => exact h
  | none => exact hd

lemma optionRel_imp (h : Option.Rel R x x') (hQ : ∀ a a', R a a' → Q a a') : Option.Rel Q x x' := by
  cases h with
  | none => exact .none
  | some h => exact .some (hQ _ _ h)

lemma optionRel_getElem? (h : Forall₂ R l l') (i : Nat) :
    Option.Rel R l[i]? l'[i]? := by
  induction h generalizing i with
  | nil => exact .none
  | cons ha _ ih =>
    cases i with
    | zero => exact .some ha
    | succ i => exact ih i

lemma mem_of_lookup {l : List (String × α)} (h : l.lookup k = some v) : (k, v) ∈ l := by
  obtain ⟨l1, l2, rfl, -⟩ := lookup_eq_some_iff.mp h
  simp

lemma Table.get?_insert (t : Table α) (k k' : String) (v : α) :
    (t.insert k v).get? k' = if k' = k then some v else t.get? k' := by
  obtain ⟨l⟩ := t
  show (put k v l).lookup k' = if k' = k then some v else l.lookup k'
  induction l with
  | nil =>
    rw [put, lookup_cons]
    split <;> simp_all
  | cons e rest ih =>
    obtain ⟨k1, v1⟩ := e
    rw [put]
    by_cases hk : k1 = k
    · subst hk
      simp only [beq_self_eq_true, if_true, lookup_cons]
      split <;> simp_all
    · rw [if_neg (by simpa using hk), lookup_cons, lookup_cons, ih]
      by_cases h : k' = k1
      · subst h
        simp only [beq_self_eq_true, if_neg hk]
      · rw [beq_eq_false_iff_ne.mpr h]

/-- Entries of one name whose values correspond. -/
def EntryRel {α α' : Type} (R : α → α' → Prop) (e : String × α) (e' : String × α') : Prop :=
  e.1 = e'.1 ∧ R e.2 e'.2

/-- Entries that correspond, one name after the other. -/
@[elab_as_elim]
lemma entries_induction {motive : ∀ l l', Forall₂ (EntryRel R) l l' → Prop}
    (nil : motive [] [] .nil) (cons : ∀ k {v v' l l'} (hv : R v v') h, motive l l' h →
      motive ((k, v) :: l) ((k, v') :: l') (.cons ⟨rfl, hv⟩ h))
    {l l'} (h : Forall₂ (EntryRel R) l l') : motive l l' h := by
  induction h with
  | nil => exact nil
  | @cons e e' l l' he h ih =>
    obtain ⟨k, v⟩ := e
    obtain ⟨k', v'⟩ := e'
    obtain ⟨rfl, hv⟩ : k = k' ∧ R v v' := he
    exact cons k hv h ih

/-- Lists whose members are equal and have a property. -/
lemma forall₂_iff_eq {R : α → α → Prop} {P : α → Prop} {l l' : List α}
    (h : ∀ {a a'}, R a a' ↔ a = a' ∧ P a) : Forall₂ R l l' ↔ l = l' ∧ ∀ a ∈ l, P a := by
  obtain rfl : R = fun a a' => P a ∧ a = a' := by
    funext a a'
    exact propext (h.trans and_comm)
  rw [forall₂_and_left, forall₂_eq_eq_eq, and_comm]

lemma filter_rel (p : String → Bool)
    (h : Forall₂ (EntryRel R) l l') :
    Forall₂ (EntryRel R) (l.filter fun e => p e.1) (l'.filter fun e => p e.1) := by
  refine rel_filter (fun e e' he => ?_) h
  simp only [he.1]

/-- Tables with the same names in the same order, whose values correspond. -/
def Table.Rel {α α' : Type} (R : α → α' → Prop) (t : Table α) (t' : Table α') : Prop :=
  Forall₂ (EntryRel R) t.entries t'.entries

namespace Table.Rel

variable {t : Table α} {t' : Table α'}

lemma empty : Rel R .empty .empty := .nil

lemma lookup {l : List (String × α)} {l' : List (String × α')} (h : Forall₂ (EntryRel R) l l')
    (k : String) : Option.Rel R (l.lookup k) (l'.lookup k) := by
  induction h using entries_induction with
  | nil => exact .none
  | cons k hv _ ih =>
    rw [lookup_cons, lookup_cons]
    split
    · exact .some hv
    · exact ih

lemma get? (h : Rel R t t') (k : String) : Option.Rel R (t.get? k) (t'.get? k) := lookup h k

lemma contains (h : Rel R t t') (k : String) : t.contains k = t'.contains k := by
  have hg := h.get? k
  rw [Table.contains, Table.contains]
  generalize t.get? k = x, t'.get? k = x' at hg ⊢
  cases hg <;> rfl

lemma keys (h : Rel R t t') : t.keys = t'.keys := by
  rw [← forall₂_eq_eq_eq]
  exact rel_map (fun _ _ he => he.1) h

lemma put {l : List (String × α)} {l' : List (String × α')} (h : Forall₂ (EntryRel R) l l')
    (k : String) (hv : R v v') : Forall₂ (EntryRel R) (put k v l) (put k v' l') := by
  induction h using entries_induction with
  | nil => exact .cons ⟨rfl, hv⟩ .nil
  | cons k hu hrest ih =>
    rw [Table.put, Table.put]
    split
    · exact .cons ⟨rfl, hv⟩ hrest
    · exact .cons ⟨rfl, hu⟩ ih

lemma insert (h : Rel R t t') (k : String) (hv : R v v') :
    Rel R (t.insert k v) (t'.insert k v') :=
  put h k hv

lemma insertAll (h : Rel R t t') {l : List (String × α)} {l' : List (String × α')}
    (hl : Forall₂ (EntryRel R) l l') : Rel R (t.insertAll l) (t'.insertAll l') := by
  induction hl using entries_induction generalizing t t' with
  | nil => exact h
  | cons k hv _ ih => exact ih (h.insert k hv)

lemma ofList (hl : Forall₂ (EntryRel R) l l') : Rel R (.ofList l) (.ofList l') :=
  empty.insertAll hl

lemma map (h : Rel R t t') (hf : ∀ a a', R a a' → Q (f a) (f' a')) :
    Rel Q (t.map f) (t'.map f') :=
  rel_map (fun _ _ he => ⟨he.1, hf _ _ he.2⟩) h

lemma imp (h : Rel R t t') (hR : ∀ a a', R a a' → R' a a') : Rel R' t t' :=
  Forall₂.imp (fun _ _ he => ⟨he.1, hR _ _ he.2⟩) h

end Table.Rel

/-- Outcomes whose results correspond; failures are the same. -/
inductive ExceptRel {ε α α' : Type} (R : α → α' → Prop) : Except ε α → Except ε α' → Prop
  | ok (h : R a a') : ExceptRel R (.ok a) (.ok a')
  | error (e : ε) : ExceptRel R (.error e) (.error e)

/-- Host objects that differ in names at most. -/
inductive HostObject.Rel (β : Naming) : HostObject → HostObject → Prop
  | plain (typeName : String) : Rel β (.plain typeName) (.plain typeName)
  | bag (h : attrs.Rel (Value.Rel β) attrs') : Rel β (.bag attrs) (.bag attrs')
  | store {id id' : StoreId} {state state' : ObjectId} (hid : β.rel (.store id) (.store id'))
      (h : β.rel (.object state) (.object state')) : Rel β (.store id state) (.store id' state')
  | auth (h : β.rel (.object state) (.object state')) : Rel β (.auth state) (.auth state')

lemma HostObject.Rel.mono (hle : ∀ {a b}, β.rel a b → γ.rel a b) (h : HostObject.Rel β x x') :
    HostObject.Rel γ x x' := by
  cases h with
  | plain typeName => exact .plain typeName
  | bag h => exact .bag (h.imp fun _ _ => .mono hle)
  | store hid h => exact .store (hle hid) (hle h)
  | auth h => exact .auth (hle h)

/-! ## Slots and heaps -/

def Container.ref : Container → Ref
  | .object o => .object o
  | .list l => .list l

lemma Container.ref_injective : Function.Injective Container.ref := by
  intro c c' h
  cases c <;> cases c' <;> cases h <;> rfl

/-- The same part of containers that correspond. -/
structure Slot.Rel (β : Naming) (s s' : Slot) : Prop where
  container : β.rel s.container.ref s'.container.ref
  key : s.key = s'.key

namespace Slot.Rel

lemma property (h : β.rel (.object o) (.object o')) (name : String) :
    Slot.Rel β (.property o name) (.property o' name) :=
  ⟨h, rfl⟩

lemma iteration (h : β.rel (.object o) (.object o')) : Slot.Rel β (.iteration o) (.iteration o') :=
  ⟨h, rfl⟩

lemma item (h : β.rel (.list l) (.list l')) (i : Nat) : Slot.Rel β (.item l i) (.item l' i) :=
  ⟨h, rfl⟩

lemma length (h : β.rel (.list l) (.list l')) : Slot.Rel β (.length l) (.length l') := ⟨h, rfl⟩

end Slot.Rel

/-- What two heaps show at two slots is the same up to names. A table may hold a name several times;
all values under a name belong to its slot. -/
def Heap.Same (β : Naming) (h h' : Heap) : Slot → Slot → Prop
  | ⟨.object o, .property name⟩, ⟨.object o', .property _⟩ =>
    Forall₂ (EntryRel (Value.Rel β)) ((h.fields o).entries.filter (·.1 == name))
      ((h'.fields o').entries.filter (·.1 == name))
  | ⟨.object o, .iteration⟩, ⟨.object o', .iteration⟩ => (h.fields o).keys = (h'.fields o').keys
  | ⟨.list l, .property name⟩, ⟨.list l', .property _⟩ =>
    (∀ i : Nat, name = toString i →
      Value.Rel β ((h.items l).getD i .undefined) ((h'.items l').getD i .undefined)) ∧
    (name = "length" → (h.items l).length = (h'.items l').length)
  | _, _ => True

lemma Heap.Same.mono (hle : ∀ {a b}, β.rel a b → γ.rel a b) (hs : Heap.Same β h h' s s') :
    Heap.Same γ h h' s s' := by
  obtain ⟨c, k⟩ := s
  obtain ⟨c', k'⟩ := s'
  cases c <;> cases c' <;> cases k <;> cases k' <;> try exact hs
  · exact hs.imp fun _ _ he => ⟨he.1, he.2.mono hle⟩
  · exact ⟨fun i hi => (hs.1 i hi).mono hle, hs.2⟩

/-- Two heaps agree on slots of the first, and on what is never changed. In the second there is
room for at least as deep a nesting. -/
structure Heap.Agree (β : Naming) (A : Set Slot) (h h' : Heap) : Prop where
  slots : ∀ s ∈ A, ∀ s', Slot.Rel β s s' → Heap.Same β h h' s s'
  hosts : ∀ i i', β.rel (.host i) (.host i') →
    HostObject.Rel β (h.hostObject i) (h'.hostObject i')
  nesting : h.nesting ≤ h'.nesting

lemma forall₂_of_keys :
    ∀ {l : List (String × α)} {l' : List (String × α')},
      l.map Prod.fst = l'.map Prod.fst →
      (∀ k ∈ l.map Prod.fst, Forall₂ (EntryRel R) (l.filter (·.1 == k))
        (l'.filter (·.1 == k))) →
      Forall₂ (EntryRel R) l l'
  | [], [], _, _ => .nil
  | e :: l, e' :: l', hk, hs => by
    obtain ⟨he, hrest⟩ := cons.inj hk
    have hhead := hs e.1 (by simp)
    rw [filter_cons_of_pos (by simp), filter_cons_of_pos (by simp [he])] at hhead
    obtain ⟨hee, htail⟩ := forall₂_cons.mp hhead
    refine .cons hee (forall₂_of_keys hrest ?_)
    intro k hmem
    by_cases hke : e.1 = k
    · rw [← hke]
      exact htail
    · have hfull := hs k (mem_cons_of_mem _ hmem)
      rwa [filter_cons_of_neg (by simpa using hke),
        filter_cons_of_neg (by simpa [← he] using hke)] at hfull

lemma lookup_filter (l : List (String × α)) (k : String) :
    (l.filter (·.1 == k)).lookup k = l.lookup k := by
  induction l with
  | nil => rfl
  | cons e rest ih =>
    rw [filter_cons, lookup_cons, BEq.comm]
    split
    case isTrue h => rw [lookup_cons, h]
    case isFalse h => rw [ih, Bool.eq_false_of_not_eq_true h]

namespace Heap.Agree

section

variable (hA : Heap.Agree β A h h')
include hA

lemma property (ho : β.rel (.object o) (.object o'))
    (hs : Slot.property o name ∈ A) :
    Option.Rel (Value.Rel β) ((h.fields o).get? name) ((h'.fields o').get? name) := by
  have hsame := hA.slots _ hs _ (.property ho name)
  have hl := Table.Rel.lookup hsame name
  rwa [lookup_filter, lookup_filter] at hl

lemma keys (ho : β.rel (.object o) (.object o')) (hs : Slot.iteration o ∈ A) :
    (h.fields o).keys = (h'.fields o').keys :=
  hA.slots _ hs _ (.iteration ho)

lemma entries (ho : β.rel (.object o) (.object o')) (hi : Slot.iteration o ∈ A)
    (hs : ∀ k ∈ (h.fields o).keys, Slot.property o k ∈ A) :
    (h.fields o).Rel (Value.Rel β) (h'.fields o') :=
  forall₂_of_keys (hA.keys ho hi) fun k hk => hA.slots _ (hs k hk) _ (.property ho k)

lemma item (hl : β.rel (.list l) (.list l')) (hs : Slot.item l i ∈ A) :
    Value.Rel β ((h.items l).getD i .undefined) ((h'.items l').getD i .undefined) :=
  (hA.slots _ hs _ (.item hl i)).1 i rfl

lemma length (hl : β.rel (.list l) (.list l')) (hs : Slot.length l ∈ A) :
    (h.items l).length = (h'.items l').length :=
  (hA.slots _ hs _ (.length hl)).2 rfl

lemma items (hl : β.rel (.list l) (.list l')) (hlen : Slot.length l ∈ A)
    (hs : ∀ i < (h.items l).length, Slot.item l i ∈ A) :
    Forall₂ (Value.Rel β) (h.items l) (h'.items l') := by
  have hn := hA.length hl hlen
  refine forall₂_of_length_eq_of_get hn ?_
  intro i hi hi'
  have hv := hA.item hl (hs i hi)
  simpa [getD_eq_getElem?_getD, hi, hi'] using hv

end

end Heap.Agree

end LiveMarkup
