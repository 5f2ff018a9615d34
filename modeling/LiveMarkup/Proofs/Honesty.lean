import LiveMarkup.Proofs.Changes
import LiveMarkup.Proofs.Machine
import LiveMarkup.Proofs.Readings

/-!
# Names are handed out, never made up

A program learns the names of containers, host objects and functions by creating them or by being
answered with them. It cannot make one up, so a name in use always belongs to something that is
there. An `Honest` program mentions only names it knows. Worlds in which everything known leads to
known things only, the sealed ones, stay sealed under honest programs.
-/

namespace LiveMarkup

open List Value

variable {α β : Type}
variable {K K' : Set Ref} {h h' : Heap} {q : Query} {a : q.Answer} {slots : List Slot} {u : Update}

/-! ## Known values -/

def Value.Known (K : Set Ref) : Value → Prop
  | .list l => .list l ∈ K
  | .object o => .object o ∈ K
  | .function f _ => .function f ∈ K
  | .host i => .host i ∈ K
  | _ => True

lemma Value.rel_same : Rel (.same K) v v' ↔ v = v' ∧ v.Known K := by
  constructor
  · intro h
    refine ⟨h.eq_of_same, ?_⟩
    cases h with
    | list h | object h | function h | host h => exact h.1
    | _ => trivial
  · rintro ⟨rfl, h⟩
    cases v with
    | list l => exact .list ⟨h, rfl⟩
    | object o => exact .object ⟨h, rfl⟩
    | function f name =>
      have hf : (Naming.same K).rel (.function f) (.function f) := ⟨h, rfl⟩
      exact .function hf name
    | host i => exact .host ⟨h, rfl⟩
    | _ => exact .of_isPrimitive rfl

lemma Value.Known.mono (hK : K ⊆ K') {v : Value} (h : v.Known K) : v.Known K' := by
  cases v with
  | list | object | function | host => exact hK h
  | _ => trivial

def Table.Known (K : Set Ref) (t : Table Value) : Prop :=
  ∀ e ∈ t.entries, e.2.Known K

lemma entries_rel_same :
    Forall₂ (EntryRel (Rel (.same K))) l l' ↔ l = l' ∧ ∀ e ∈ l, e.2.Known K := by
  refine forall₂_iff_eq fun {e e'} => ?_
  rw [EntryRel, rel_same, Prod.ext_iff, and_assoc]

lemma values_rel_same : Forall₂ (Rel (.same K)) l l' ↔ l = l' ∧ ∀ v ∈ l, v.Known K :=
  forall₂_iff_eq rel_same

def HostObject.Known (K : Set Ref) : HostObject → Prop
  | .plain _ => True
  | .bag attrs => attrs.Known K
  | .store id state => .store id ∈ K ∧ .object state ∈ K
  | .auth state => .object state ∈ K

lemma HostObject.rel_same : HostObject.Rel (.same K) x x' ↔ x = x' ∧ x.Known K := by
  constructor
  · intro h
    cases h with
    | plain name => exact ⟨rfl, trivial⟩
    | @bag attrs attrs' h =>
      obtain ⟨heq, hknown⟩ := entries_rel_same.mp h
      obtain ⟨l⟩ := attrs
      obtain ⟨l'⟩ := attrs'
      exact ⟨congrArg (fun l => HostObject.bag ⟨l⟩) heq, hknown⟩
    | store hid h =>
      cases hid.2
      cases h.2
      exact ⟨rfl, hid.1, h.1⟩
    | auth h =>
      cases h.2
      exact ⟨rfl, h.1⟩
  · rintro ⟨rfl, h⟩
    cases x with
    | plain name => exact .plain name
    | bag attrs => exact .bag (entries_rel_same.mpr ⟨rfl, h⟩)
    | store id state => exact .store ⟨h.1, rfl⟩ ⟨h.2, rfl⟩
    | auth state => exact .auth ⟨h, rfl⟩

lemma HostObject.Known.mono (hK : K ⊆ K') {x : HostObject} (h : x.Known K) : x.Known K' := by
  cases x with
  | plain name => trivial
  | bag attrs => exact fun e he => (h e he).mono hK
  | store id state => exact ⟨hK h.1, hK h.2⟩
  | auth state => exact hK h

/-! ## Sealed heaps -/

/-- Containers and host objects that are there. -/
def Heap.Holds (h : Heap) : Ref → Prop
  | .object o => o.index < h.objects.size
  | .list l => l.index < h.lists.size
  | .host i => i.index < h.hosts.size
  | .function _ | .store _ => True

/-- Everything known is there, and leads to known things only. -/
structure Heap.Sealed (K : Set Ref) (h : Heap) : Prop where
  holds : ∀ a ∈ K, h.Holds a
  fields : ∀ o, .object o ∈ K → (h.fields o).Known K
  items : ∀ l, .list l ∈ K → ∀ v ∈ h.items l, v.Known K
  hosts : ∀ i, .host i ∈ K → (h.hostObject i).Known K

/-- What is there stays there, and host objects stay what they are. -/
structure Heap.Extends (h h' : Heap) : Prop where
  objects : h.objects.size ≤ h'.objects.size
  lists : h.lists.size ≤ h'.lists.size
  hosts : h.hosts.size ≤ h'.hosts.size
  hostObject : ∀ i, i.index < h.hosts.size → h'.hostObject i = h.hostObject i

namespace Heap.Extends

lemma refl (h : Heap) : h.Extends h := ⟨le_rfl, le_rfl, le_rfl, fun _ _ => rfl⟩

lemma trans {h1 h2 h3 : Heap} (h : h1.Extends h2) (h' : h2.Extends h3) : h1.Extends h3 where
  objects := h.objects.trans h'.objects
  lists := h.lists.trans h'.lists
  hosts := h.hosts.trans h'.hosts
  hostObject i hi := (h'.hostObject i (hi.trans_le h.hosts)).trans (h.hostObject i hi)

lemma holds (he : h.Extends h') {a : Ref} (ha : h.Holds a) : h'.Holds a := by
  cases a with
  | object o => exact ha.trans_le he.objects
  | list l => exact ha.trans_le he.lists
  | host i => exact ha.trans_le he.hosts
  | _ => trivial

lemma nesting (he : h.Extends h') : h.nesting ≤ h'.nesting := by
  have h1 := he.objects
  have h2 := he.lists
  exact Nat.mul_le_mul (Nat.succ_le_succ he.hosts) (by omega)

end Heap.Extends

/-- A slot of a known container shows the same up to the identity on known names where it shows
the same. -/
lemma Heap.Sealed.same (hK : h.Sealed K) (hs : s.container.ref ∈ K) (hu : h.Unchanged h' s) :
    Heap.Same (.same K) h h' s s := by
  obtain ⟨c, k⟩ := s
  cases c with
  | object o =>
    cases k with
    | property name =>
      refine entries_rel_same.mpr ⟨hu.symm, ?_⟩
      intro e he
      exact hK.fields o hs e (mem_of_mem_filter he)
    | iteration => exact hu.symm
  | list l =>
    cases k with
    | property name =>
      refine ⟨?_, fun hlen => (hu.2 hlen).symm⟩
      intro i hi
      refine rel_same.mpr ⟨(hu.1 i hi).symm, ?_⟩
      rw [getD_eq_getElem?_getD]
      cases hget : (h.items l)[i]? with
      | none => trivial
      | some v => exact hK.items l hs v (mem_of_getElem? hget)
    | iteration => trivial

lemma Slot.rel_same : Slot.Rel (.same K) s s' ↔ s = s' ∧ s.container.ref ∈ K := by
  constructor
  · obtain ⟨c, k⟩ := s
    rintro ⟨⟨hmem, hc⟩, rfl⟩
    obtain rfl : c = _ := Container.ref_injective hc
    exact ⟨rfl, hmem⟩
  · rintro ⟨rfl, hmem⟩
    exact ⟨⟨hmem, rfl⟩, rfl⟩

/-- A sealed heap agrees with every later heap on what did not change in between. -/
lemma Heap.Sealed.agree (hK : h.Sealed K) (he : h.Extends h') (hA : ∀ s ∈ A, h.Unchanged h' s) :
    Heap.Agree (.same K) A h h' where
  slots := by
    intro s hs s' hrel
    obtain ⟨rfl, hmem⟩ := Slot.rel_same.mp hrel
    exact hK.same hmem (hA s hs)
  hosts := by
    rintro i i' ⟨hmem, heq⟩
    cases heq
    exact HostObject.rel_same.mpr ⟨(he.hostObject i (hK.holds _ hmem)).symm, hK.hosts i hmem⟩
  nesting := he.nesting

/-! ## Answers -/

def Query.Known (K : Set Ref) (q : Query) : Prop :=
  q.Rel (.same K) q

lemma Query.known_property (ho : .object o ∈ K) (name : String) : (Query.property o name).Known K :=
  Query.Rel.property (β := .same K) ⟨ho, rfl⟩ name

def Query.AnswerKnown (K : Set Ref) (q : Query) (a : q.Answer) : Prop :=
  q.AnswerRel (.same K) q a a

lemma optionRel_same (h : Option.Rel (Rel (.same K)) x x') : x = x' := by
  cases h with
  | some h => rw [h.eq_of_same]
  | none => rfl

lemma Query.eq_of_answerRel_same (h : q.AnswerRel (.same K) q a a') : a = a' := by
  cases q with
  | property => exact optionRel_same h
  | entries => exact (entries_rel_same.mp h).1
  | item => exact h.eq_of_same
  | items => exact (values_rel_same.mp h).1
  | hostObject => exact (HostObject.rel_same.mp h).1
  | mergedAttributes =>
    obtain ⟨l⟩ := a
    obtain ⟨l'⟩ := a'
    exact congrArg Table.mk (entries_rel_same.mp h).1
  | _ => exact h

lemma Heap.Sealed.answer (hK : h.Sealed K) (he : h.Extends h') (hq : q.Known K)
    (ha : q.answer h = some (a, slots)) (hu : ∀ s ∈ slots, h.Unchanged h' s) :
    q.answer h' = some (a, slots) ∧ q.AnswerKnown K a ∧ ∀ s ∈ slots, s.container.ref ∈ K := by
  obtain ⟨a', slots', ha', haa, hss⟩ :=
    Query.answer_rel (hK.agree (A := fun s => s ∈ slots) he hu) hq ha fun _ hs => hs
  obtain rfl := Query.eq_of_answerRel_same haa
  obtain ⟨rfl, hknown⟩ := (forall₂_iff_eq Slot.rel_same).mp hss
  exact ⟨ha', haa, hknown⟩

lemma Heap.Sealed.answer_known (hK : h.Sealed K) (hq : q.Known K)
    (ha : q.answer h = some (a, slots)) : q.AnswerKnown K a ∧ ∀ s ∈ slots, s.container.ref ∈ K :=
  (hK.answer (.refl h) hq ha fun _ _ => .of_eq (fun _ _ => rfl) fun _ _ => rfl).2

/-! ## Changes -/

/-- An update of a known container that brings in a known value. -/
structure Update.Known (K : Set Ref) (u : Update) : Prop where
  container : u.container.ref ∈ K
  value : ∀ v, u.value? = some v → v.Known K

def Update.ResultKnown (K : Set Ref) : (u : Update) → u.Result → Prop
  | .remove _ _, r | .pop _, r | .removeItem _ _, r => ∀ v, r = some v → v.Known K
  | _, _ => True

lemma Update.ResultKnown.mono (hK : K ⊆ K') {r : u.Result}
    (h : u.ResultKnown K r) : u.ResultKnown K' r := by
  cases u with
  | remove | pop | removeItem => exact fun v hv => (h v hv).mono hK
  | _ => trivial

lemma Table.mem_put : ∀ {l : List (String × α)}, e ∈ Table.put k v l → e ∈ l ∨ e.2 = v
  | [], h => by
    rw [Table.put, mem_singleton] at h
    exact .inr (by rw [h])
  | (k', v') :: rest, h => by
    rw [Table.put] at h
    split at h
    · rcases mem_cons.mp h with rfl | h
      · exact .inr rfl
      · exact .inl (mem_cons_of_mem _ h)
    · rcases mem_cons.mp h with rfl | h
      · exact .inl mem_cons_self
      · exact (mem_put h).imp_left (mem_cons_of_mem _)

/-- What an update can do: nothing, or new contents for its container, made of what was there, of
`undefined` and of the value it brings in. -/
lemma Update.apply_cases (h : Heap) (u : Update) : (u.apply h).2.1 = h ∨
    (∃ o fields, u.container = .object o ∧ (u.apply h).2.1 = h.setFields o fields ∧
      ∀ e ∈ fields.entries, e ∈ (h.fields o).entries ∨ u.value? = some e.2) ∨
    (∃ l items, u.container = .list l ∧ (u.apply h).2.1 = h.setItems l items ∧
      ∀ v ∈ items, v ∈ h.items l ∨ v = .undefined ∨ u.value? = some v) := by
  cases hu : u.container with
  | list l =>
    rw [apply_list hu]
    cases hc : u.splice? (h.items l) with
    | none => exact .inl rfl
    | some c =>
      refine .inr (.inr ⟨l, c.apply (h.items l), rfl, rfl, ?_⟩)
      intro v hv
      rcases mem_append.mp hv with hv | hv
      · rcases mem_append.mp hv with hv | hv
        · exact .inl (mem_of_mem_take hv)
        · exact .inr ((splice?_eq_some hc).2.1 v hv)
      · exact .inl (mem_of_mem_drop hv)
  | object o =>
    cases u with
    | setItem | push | pop | insertItem | removeItem | clear => cases hu
    | set o name v =>
      cases hu
      have hput : ∀ e ∈ ((h.fields o).insert name v).entries,
          e ∈ (h.fields o).entries ∨ some v = some e.2 :=
        fun e he => (Table.mem_put he).imp_right fun hv => by rw [hv]
      rw [apply_set]
      split
      · exact .inr (.inl ⟨o, _, rfl, rfl, hput⟩)
      · exact .inl rfl
    | remove o name =>
      cases hu
      cases hget : (h.fields o).get? name with
      | some old =>
        refine .inr (.inl ⟨o, (h.fields o).erase name, rfl, by simp only [apply, hget], ?_⟩)
        exact fun e he => .inl (mem_of_mem_filter he)
      | none => exact .inl (by simp only [apply, hget])

lemma Heap.extends_setFields (h : Heap) (o : ObjectId) (fields : Table Value) :
    h.Extends (h.setFields o fields) :=
  ⟨by simp [setFields], le_rfl, le_rfl, fun _ _ => rfl⟩

lemma Heap.extends_setItems (h : Heap) (l : ListId) (items : List Value) :
    h.Extends (h.setItems l items) :=
  ⟨le_rfl, by simp [setItems], le_rfl, fun _ _ => rfl⟩

lemma Update.extends_apply (h : Heap) (u : Update) : h.Extends (u.apply h).2.1 := by
  rcases u.apply_cases h with heq | ⟨o, fields, -, heq, -⟩ | ⟨l, items, -, heq, -⟩
  · rw [heq]
    exact .refl h
  · rw [heq]
    exact h.extends_setFields o fields
  · rw [heq]
    exact h.extends_setItems l items

lemma Heap.Sealed.apply (hK : h.Sealed K) (hu : u.Known K) : Heap.Sealed K (u.apply h).2.1 := by
  have he := u.extends_apply h
  rcases u.apply_cases h with heq | ⟨o, fields, -, heq, hfields⟩ | ⟨l, items, -, heq, hitems⟩
  · rw [heq]
    exact hK
  · rw [heq] at he ⊢
    refine ⟨fun a ha => he.holds (hK.holds a ha), ?_, hK.items, hK.hosts⟩
    intro o' ho' e hmem
    by_cases hne : o' = o
    · subst hne
      rcases fields_setFields_self h o' fields with hf | hf
      · rw [hf] at hmem
        exact (hfields e hmem).elim (hK.fields o' ho' e) (hu.value _)
      · rw [hf] at hmem
        exact hK.fields o' ho' e hmem
    · rw [fields_setFields_of_ne h fields hne] at hmem
      exact hK.fields o' ho' e hmem
  · rw [heq] at he ⊢
    refine ⟨fun a ha => he.holds (hK.holds a ha), hK.fields, ?_, hK.hosts⟩
    intro l' hl' v hmem
    by_cases hne : l' = l
    · subst hne
      rcases items_setItems_self h l' items with hf | hf
      · rw [hf] at hmem
        rcases hitems v hmem with hv | rfl | hv
        · exact hK.items l' hl' v hv
        · trivial
        · exact hu.value v hv
      · rw [hf] at hmem
        exact hK.items l' hl' v hmem
    · rw [items_setItems_of_ne h items hne] at hmem
      exact hK.items l' hl' v hmem

lemma Heap.Sealed.result (hK : h.Sealed K) (hu : u.Known K) : u.ResultKnown K (u.apply h).1 := by
  cases u with
  | remove o name =>
    intro v hv
    rw [Update.apply] at hv
    split at hv <;> cases hv
    exact hK.fields o hu.container (name, v) (mem_of_lookup ‹_›)
  | pop l =>
    intro v hv
    rw [Update.apply] at hv
    split at hv <;> cases hv
    exact hK.items l hu.container v (mem_of_getLast? ‹_›)
  | removeItem l i =>
    intro v hv
    rw [Update.apply] at hv
    split at hv <;> cases hv
    exact hK.items l hu.container v (mem_of_getElem? ‹_›)
  | _ => trivial

end LiveMarkup
