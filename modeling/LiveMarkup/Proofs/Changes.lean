import LiveMarkup.Heap.Update
import LiveMarkup.Proofs.Naming

/-!
# Changes are told

Carrying out an update yields the slots whose readers are told. Whatever a slot that is not among
them shows, it showed before.
-/

namespace LiveMarkup

open List Heap

variable {s : Slot} {items : List Value} {h : Heap} {l : ListId} {α : Type} {k : String} {j : Nat}
  {u : Update} {c : Splice}

def Heap.Unchanged (h h' : Heap) : Slot → Prop
  | ⟨.object o, .property name⟩ =>
    (h'.fields o).entries.filter (·.1 == name) = (h.fields o).entries.filter (·.1 == name)
  | ⟨.object o, .iteration⟩ => (h'.fields o).keys = (h.fields o).keys
  | ⟨.list l, .property name⟩ =>
    (∀ i : Nat, name = toString i →
      (h'.items l).getD i .undefined = (h.items l).getD i .undefined) ∧
    (name = "length" → (h'.items l).length = (h.items l).length)
  | ⟨.list _, .iteration⟩ => True

lemma Heap.Unchanged.trans {h1 h2 h3 : Heap} (h : h1.Unchanged h2 s)
    (h' : h2.Unchanged h3 s) : h1.Unchanged h3 s := by
  obtain ⟨c, k⟩ := s
  cases c with
  | object o =>
    cases k with
    | property name | iteration => exact Eq.trans h' h
  | list l =>
    cases k with
    | property name =>
      exact ⟨fun i hi => (h'.1 i hi).trans (h.1 i hi), fun hl => (h'.2 hl).trans (h.2 hl)⟩
    | iteration => trivial

lemma Heap.Unchanged.of_eq (ho : ∀ o, s.container = .object o → h'.fields o = h.fields o)
    (hl : ∀ l, s.container = .list l → h'.items l = h.items l) : h.Unchanged h' s := by
  obtain ⟨c, k⟩ := s
  cases c with
  | object o =>
    have hf := ho o rfl
    cases k with
    | property name | iteration => show _ = _; rw [hf]
  | list l =>
    have hi := hl l rfl
    cases k with
    | property name =>
      rw [Unchanged, hi]
      exact ⟨fun _ _ => rfl, fun _ => rfl⟩
    | iteration => trivial

namespace Heap

lemma fields_setFields_of_ne (h : Heap) (fields : Table Value) (hne : o' ≠ o) :
    (h.setFields o fields).fields o' = h.fields o' := by
  have hi : o.index ≠ o'.index := fun hi => hne (congrArg ObjectId.mk hi.symm)
  simp [Heap.fields, Heap.setFields, Array.getD_eq_getD_getElem?, hi]

lemma fields_setFields_self (h : Heap) (o : ObjectId) (fields : Table Value) :
    (h.setFields o fields).fields o = fields ∨ (h.setFields o fields).fields o = h.fields o := by
  by_cases hlt : o.index < h.objects.size
  · left
    simp [Heap.fields, Heap.setFields, Array.getD_eq_getD_getElem?, hlt]
  · right
    simp [Heap.fields, Heap.setFields, Array.getD_eq_getD_getElem?, hlt]

lemma items_setItems_of_ne (h : Heap) (items : List Value) (hne : l' ≠ l) :
    (h.setItems l items).items l' = h.items l' := by
  have hi : l.index ≠ l'.index := fun hi => hne (congrArg ListId.mk hi.symm)
  simp [Heap.items, Heap.setItems, Array.getD_eq_getD_getElem?, hi]

lemma items_setItems_self (h : Heap) (l : ListId) (items : List Value) :
    (h.setItems l items).items l = items ∨ (h.setItems l items).items l = h.items l := by
  by_cases hlt : l.index < h.lists.size
  · left
    simp [Heap.items, Heap.setItems, Array.getD_eq_getD_getElem?, hlt]
  · right
    simp [Heap.items, Heap.setItems, Array.getD_eq_getD_getElem?, hlt]

lemma unchanged_setFields {fields : Table Value} (hp : ∀ name, s = .property o name →
    fields.entries.filter (·.1 == name) = (h.fields o).entries.filter (·.1 == name))
    (hk : s = .iteration o → fields.keys = (h.fields o).keys) :
    h.Unchanged (h.setFields o fields) s := by
  obtain ⟨c, k⟩ := s
  by_cases hc : c = .object o
  · subst hc
    rcases fields_setFields_self h o fields with hf | hf
    · cases k with
      | property name =>
        show _ = _
        rw [hf]
        exact hp name rfl
      | iteration =>
        show _ = _
        rw [hf]
        exact hk rfl
    · refine .of_eq ?_ fun l hl => rfl
      rintro o' ho'
      cases ho'
      exact hf
  · refine .of_eq ?_ fun l hl => rfl
    rintro o' rfl
    exact fields_setFields_of_ne h fields fun heq => hc (by rw [heq])

lemma unchanged_setItems
    (hi : ∀ i, s = .item l i → items.getD i .undefined = (h.items l).getD i .undefined)
    (hlen : s = .length l → items.length = (h.items l).length) :
    h.Unchanged (h.setItems l items) s := by
  obtain ⟨c, k⟩ := s
  by_cases hc : c = .list l
  · subst hc
    rcases items_setItems_self h l items with hf | hf
    · cases k with
      | property name =>
        rw [Unchanged, hf]
        refine ⟨?_, ?_⟩
        · rintro i rfl
          exact hi i rfl
        · rintro rfl
          exact hlen rfl
      | iteration => trivial
    · refine .of_eq (fun o ho => rfl) ?_
      rintro l' hl'
      cases hl'
      exact hf
  · refine .of_eq (fun o ho => rfl) ?_
    rintro l' rfl
    exact items_setItems_of_ne h items fun heq => hc (by rw [heq])

end Heap

/-! ## Tables -/

namespace Table

lemma filter_put_of_ne (v : α) (hne : name ≠ k) (l : List (String × α)) :
    (put k v l).filter (·.1 == name) = l.filter (·.1 == name) := by
  have hk : (k == name) = false := by simpa using Ne.symm hne
  induction l with
  | nil => simp [put, hk]
  | cons e rest ih =>
    obtain ⟨k', v'⟩ := e
    rw [put]
    split
    case isTrue h =>
      have hk' : k' = k := by simpa using h
      subst hk'
      simp [hk]
    case isFalse => rw [filter_cons, filter_cons, ih]

lemma keys_insert (t : Table α) (k : String) (v : α) :
    (t.insert k v).keys = if t.contains k then t.keys else t.keys ++ [k] := by
  obtain ⟨entries⟩ := t
  show (put k v entries).map Prod.fst = if (entries.lookup k).isSome then _ else _
  induction entries with
  | nil => rfl
  | cons e rest ih =>
    obtain ⟨k', v'⟩ := e
    rw [put, lookup_cons]
    by_cases hk : k' = k
    · subst hk
      simp [keys]
    · have hk' : (k == k') = false := by simpa using Ne.symm hk
      simp only [beq_iff_eq, hk, if_false, map_cons, ih, hk', keys]
      split <;> rfl

lemma filter_erase_of_ne (hne : name ≠ k) (t : Table α) :
    (t.erase k).entries.filter (·.1 == name) = t.entries.filter (·.1 == name) := by
  rw [erase, filter_filter]
  refine filter_congr ?_
  intro e _
  by_cases h : e.1 = name
  · simp [h, hne]
  · simp [h]

end Table

/-! ## Lists -/

/-- Items from a position on are dropped, and others put in their place. -/
structure Splice where
  start : Nat
  dropped : Nat
  inserted : List Value

namespace Splice

def apply (c : Splice) (items : List Value) : List Value :=
  items.take c.start ++ c.inserted ++ items.drop (c.start + c.dropped)

/-- One item in the place of another is told where it is; otherwise items move. -/
def told (l : ListId) (c : Splice) (items : List Value) : List Slot :=
  if (c.apply items).length = items.length then [.item l c.start]
  else Update.movedSlots l c.start (max items.length (c.apply items).length)

end Splice

/-! ## Updates -/

namespace Update

def container : Update → Container
  | .set o _ _ | .remove o _ => .object o
  | .setItem l _ _ | .push l _ | .pop l | .insertItem l _ _ | .removeItem l _ | .clear l => .list l

def value? : Update → Option Value
  | .set _ _ v | .setItem _ _ v | .push _ v | .insertItem _ _ v => some v
  | _ => none

/-- Whether a property does not hold a value strictly equal to a new one. -/
def stores (t : Table Value) (name : String) (v : Value) : Bool :=
  !(t.get? name).any (·.strictEq v)

lemma apply_set (h : Heap) (o : ObjectId) (name : String) (v : Value) :
    ((set o name v).apply h).2 = if stores (h.fields o) name v then
        (h.setFields o ((h.fields o).insert name v),
          .property o name :: if (h.fields o).contains name then [] else [.iteration o])
      else (h, []) := by
  cases hget : (h.fields o).get? name with
  | none => simp [apply, stores, Table.contains, hget]
  | some old => cases hold : old.strictEq v <;> simp [apply, stores, Table.contains, hget, hold]

/-- What a change does to the items of its list, unless it finds nothing to change. -/
def splice? (items : List Value) : Update → Option Splice
  | .setItem _ i v =>
    if items[i]?.any (·.strictEq v) then none
    else some ⟨min i items.length, 1, replicate (i - items.length) .undefined ++ [v]⟩
  | .push _ v => some ⟨items.length, 0, [v]⟩
  | .pop _ => if items = [] then none else some ⟨items.length - 1, 1, []⟩
  | .insertItem _ i v => some ⟨min i items.length, 0, [v]⟩
  | .removeItem _ i => if i < items.length then some ⟨i, 1, []⟩ else none
  | .clear _ => if items = [] then none else some ⟨0, items.length, []⟩
  | _ => none

lemma apply_list (hu : u.container = .list l) (h : Heap) :
    (u.apply h).2 = (u.splice? (h.items l)).elim (h, []) fun c =>
      (h.setItems l (c.apply (h.items l)), c.told l (h.items l)) := by
  cases u with
  | set | remove => cases hu
  | setItem l i v =>
    cases hu
    cases hget : (h.items l)[i]? with
    | some old =>
      obtain ⟨hlt, rfl⟩ := List.getElem?_eq_some_iff.mp hget
      by_cases heq : (h.items l)[i].strictEq v
      · simp [apply, splice?, hlt, heq]
      · have hwritten : Splice.apply ⟨i, 1, [v]⟩ (h.items l) = (h.items l).set i v := by
          rw [set_eq_take_append_cons_drop, if_pos hlt]
          exact append_assoc _ _ _
        simp [apply, splice?, heq, written, hlt, Splice.told, hlt.le, Nat.sub_eq_zero_of_le,
          hwritten]
    | none =>
      have hle : (h.items l).length ≤ i := getElem?_eq_none_iff.mp hget
      have hlen : (h.items l).length + (i - (h.items l).length + 1) = i + 1 := by omega
      have hne : i + 1 ≠ (h.items l).length := by omega
      simp [apply, splice?, written, Splice.told, Splice.apply, hle, hlen, hne, Nat.not_lt.mpr hle,
        drop_of_length_le, Nat.le_succ_of_le hle]
  | push l v =>
    cases hu
    simp [apply, splice?, Splice.told, Splice.apply]
  | pop l =>
    cases hu
    rcases eq_nil_or_concat (h.items l) with hi | ⟨front, last, hi⟩
    · simp [apply, splice?, hi]
    · simp [apply, splice?, Splice.told, Splice.apply, hi]
  | insertItem l i v =>
    cases hu
    have hlen : min i (h.items l).length + (1 + ((h.items l).length - min i (h.items l).length)) =
        (h.items l).length + 1 := by omega
    simp [apply, splice?, Splice.told, Splice.apply, hlen]
  | removeItem l i =>
    cases hu
    by_cases hlt : i < (h.items l).length
    · have hlen : i + ((h.items l).length - (i + 1)) = (h.items l).length - 1 := by omega
      have hne : (h.items l).length - 1 ≠ (h.items l).length := by omega
      simp [apply, splice?, Splice.told, Splice.apply, hlt, hlt.le, hlen, hne,
        eraseIdx_eq_take_drop_succ]
    · simp [apply, splice?, hlt]
  | clear l =>
    cases hu
    cases hi : h.items l with
    | nil => simp [apply, splice?, hi]
    | cons v rest => simp [apply, splice?, Splice.told, Splice.apply, hi]

/-- What is put in is the value of the change with `undefined` in front, and it takes as much room
as before only if one item takes the place of another. -/
lemma splice?_eq_some (hc : u.splice? items = some c) :
    c.start ≤ items.length ∧ (∀ v ∈ c.inserted, v = .undefined ∨ u.value? = some v) ∧
      ((c.apply items).length = items.length → c.dropped = 1 ∧ c.inserted.length = 1) := by
  cases u with
  | set | remove => cases hc
  | push l v =>
    cases hc
    simp [Splice.apply, value?]
  | insertItem l i v =>
    cases hc
    simp [Splice.apply, value?]
    omega
  | setItem l i v =>
    obtain ⟨-, hc⟩ := Option.ite_none_left_eq_some.mp hc
    cases hc
    refine ⟨Nat.min_le_right _ _, ?_, ?_⟩
    · intro x hx
      rcases mem_append.mp hx with hx | hx
      · exact .inl (eq_of_mem_replicate hx)
      · exact .inr (by rw [mem_singleton.mp hx]; rfl)
    · simp [Splice.apply]
      omega
  | pop | clear =>
    obtain ⟨hne, hc⟩ := Option.ite_none_left_eq_some.mp hc
    cases hc
    have hpos := length_pos_iff.mpr hne
    simp [Splice.apply]
    omega
  | removeItem l i =>
    obtain ⟨hlt, hc⟩ := Option.ite_none_right_eq_some.mp hc
    cases hc
    simp [Splice.apply]
    omega

lemma getD_of_length_le (hj : items.length ≤ j) : items.getD j .undefined = .undefined := by
  simp [getD_eq_getElem?_getD, hj]

/-- Where nothing is told, the items are those from before. -/
lemma getD_splice (hc : u.splice? items = some c) (hj : .item l j ∉ c.told l items) :
    (c.apply items).getD j .undefined = items.getD j .undefined := by
  obtain ⟨hstart, -, hone⟩ := splice?_eq_some hc
  by_cases hlt : j < c.start
  · simp [Splice.apply, getD_eq_getElem?_getD, getElem?_append, hlt, hlt.trans_le hstart]
  rw [Splice.told] at hj
  split at hj
  case isTrue hlen =>
    obtain ⟨hdropped, hinserted⟩ := hone hlen
    have hne : j ≠ c.start := fun hj' => hj (by rw [hj']; exact mem_singleton_self _)
    have hbehind : j - c.start ≠ 0 := by omega
    have hsame : c.start + 1 + (j - c.start - 1) = j := by omega
    simp [Splice.apply, getD_eq_getElem?_getD, getElem?_append, hdropped, hinserted, hlt, hstart,
      hbehind, hsame]
  case isFalse =>
    have hout : j ∉ range' _ _ := fun h => hj (mem_append_left _ (mem_map_of_mem h))
    rw [mem_range'_1] at hout
    rw [getD_of_length_le (by omega), getD_of_length_le (by omega)]

lemma unchanged_of_list (hu : u.container = .list l) (hs : s ∉ (u.apply h).2.2) :
    h.Unchanged (u.apply h).2.1 s := by
  rw [apply_list hu] at hs ⊢
  cases hc : u.splice? (h.items l) with
  | none => exact .of_eq (fun _ _ => rfl) fun _ _ => rfl
  | some c =>
    rw [hc] at hs
    refine unchanged_setItems ?_ ?_
    · rintro j rfl
      exact getD_splice hc hs
    · rintro rfl
      by_contra hlen
      have hmoved : c.told l (h.items l) = movedSlots l _ _ := if_neg hlen
      refine hs ?_
      show _ ∈ c.told l (h.items l)
      rw [hmoved]
      exact mem_append_right _ (mem_singleton_self _)

/-- A slot that an update does not name shows what it showed. -/
lemma unchanged_of_notMem (h : Heap) (u : Update) (hs : s ∉ (u.apply h).2.2) :
    h.Unchanged (u.apply h).2.1 s := by
  have hrefl : h.Unchanged h s := .of_eq (fun _ _ => rfl) fun _ _ => rfl
  cases u with
  | setItem | push | pop | insertItem | removeItem | clear => exact unchanged_of_list rfl hs
  | set o name v =>
    rw [apply_set] at hs ⊢
    split
    case isFalse => exact hrefl
    case isTrue hstores =>
      rw [if_pos hstores, mem_cons, not_or] at hs
      refine unchanged_setFields ?_ ?_
      · rintro n rfl
        exact Table.filter_put_of_ne v (fun hn => hs.1 (by rw [hn])) _
      · rintro rfl
        rw [Table.keys_insert]
        split
        case isTrue => rfl
        case isFalse hnew => exact absurd (mem_singleton_self _) (if_neg hnew ▸ hs.2)
  | remove o name =>
    cases hget : (h.fields o).get? name with
    | some old =>
      simp only [apply, hget, mem_cons, not_or] at hs ⊢
      refine unchanged_setFields ?_ ?_
      · rintro n rfl
        exact Table.filter_erase_of_ne (fun hn => hs.1 (by rw [hn])) _
      · rintro rfl
        exact absurd rfl hs.2.1
    | none => simpa only [apply, hget] using hrefl

end Update

end LiveMarkup
