import LiveMarkup.Proofs.Conduct
import LiveMarkup.Proofs.Surroundings

/-!
# Runs side by side

Two worlds stand on one stage when they show the same up to names: on the slots that matter, on
whatever the runs have made themselves, and in their states. Programs that are twins keep them
there. What one run does, the other does too, and neither does more than look, build and collect
dependencies.

The names that a run has met grow while it goes on, and a program can only mention names that it has
met. A stage therefore records the names met so far; what corresponds to them is there on both
sides, so nobody ever depends on something that is still to be made.
-/

namespace LiveMarkup

open List World Heap ViewState Update
open Container (ref_injective)
open Heap (Same)

variable {T : Terms C}
variable {slots : List Slot}

/-! ## Only some names -/

def Twins.only (τ : Twins T) (D : Set Ref) : Twins T where
  rel a b := a ∈ D ∧ τ.rel a b
  unique h h' := τ.unique h.2 h'.2
  own := τ.own
  calls := τ.calls

lemma Twins.only_le (τ : Twins T) (h : D ⊆ D') : (τ.only D).Le (τ.only D') :=
  ⟨fun hr => ⟨h hr.1, hr.2⟩, subset_rfl⟩

def Twins.own' (τ : Twins T) : Set Ref :=
  {a' | ∃ a ∈ τ.own, τ.rel a a'}

/-! ## Looking and building -/

lemma ViewState.Keeps.trans (h : Keeps T s s1)
    (h' : Keeps T s1 s2) : Keeps T s s2 where
  functions i hi := (h'.functions i (hi.trans_le h.more)).trans (h.functions i hi)
  more := h.more.trans h'.more
  instances := h'.instances.trans h.instances
  catalog := h'.catalog.trans h.catalog
  stores := h'.stores.trans h.stores
  settings := h'.settings.trans h.settings
  targets := h'.targets.trans h.targets
  document := h'.document.trans h.document
  client := h'.client.trans h.client
  cells c r hr := h'.cells c r (h.cells c r hr)
  hooks x hx b hb := by
    rcases h'.hooks x hx b hb with hT | ⟨x1, hx1, hb1⟩
    · exact .inl hT
    · exact h.hooks x1 hx1 b hb1

/-- From one world to a later one nothing was done but to look at slots and to build. Only what the
set names may have been written to. -/
structure World.Built (T : Terms C) (Q : Set Ref) (slots : List Slot)
    (w w1 : C.World) : Prop where
  heap : w.heap.Extends w1.heap
  fields : ∀ o, .object o ∉ Q → w1.heap.fields o = w.heap.fields o
  items : ∀ l, .list l ∉ Q → w1.heap.items l = w.heap.items l
  registry : w1.registry = (w.trackAll slots).registry
  effects : w1.effects = w.effects
  active : w1.active = w.active
  maxDepth : w1.maxDepth = w.maxDepth
  state : Keeps T w.state w1.state

namespace World.Built

lemma refl (w : C.World) : Built T Q [] w w where
  heap := .refl w.heap
  fields _ _ := rfl
  items _ _ := rfl
  registry := rfl
  effects := rfl
  active := rfl
  maxDepth := rfl
  state := .refl w.state

/-- Whatever has changed in the heap is named by the set. -/
lemma of_heap (heap : w.heap.Extends g) (fields : ∀ o, .object o ∉ Q → g.fields o = w.heap.fields o)
    (items : ∀ l, .list l ∉ Q → g.items l = w.heap.items l) : Built T Q [] w { w with heap := g } :=
  { refl (Q := Q) w with heap, fields, items }

lemma trans (h : Built T Q slots w w1)
    (h' : Built T Q slots1 w1 w2) : Built T Q (slots ++ slots1) w w2 where
  heap := h.heap.trans h'.heap
  fields o ho := (h'.fields o ho).trans (h.fields o ho)
  items l hl := (h'.items l hl).trans (h.items l hl)
  registry := by
    rw [h'.registry, trackAll_append]
    exact registry_trackAll_congr h.registry (by rw [h.active, active_trackAll]) slots1
  effects := h'.effects.trans h.effects
  active := h'.active.trans h.active
  maxDepth := h'.maxDepth.trans h.maxDepth
  state := h.state.trans h'.state

lemma subscribers (h : Built T Q slots w w1) (hs : e ∈ w.registry.subscribersOf s) :
    e ∈ w1.registry.subscribersOf s := by
  rw [h.registry]
  cases ha : w.active with
  | none => rwa [trackAll_of_inactive ha]
  | some a => exact (mem_subscribersOf_trackAll ha slots).mpr (.inl hs)

end World.Built

/-! ## Objects that nobody has looked at -/

/-- Nobody is subscribed to what is not there, nor to the objects of the set. -/
structure World.Unwatched (U : Set ObjectId) (w : C.World) : Prop where
  slots : ∀ p ∈ w.registry.subscribers, w.heap.Holds p.1.container.ref
  objects : ∀ o ∈ U, ∀ key, w.registry.subscribersOf ⟨.object o, key⟩ = []

namespace World

variable {w : C.World}

lemma Unwatched.notHeld (h : w.Unwatched U) (hs : ¬ w.heap.Holds s.container.ref) :
    w.registry.subscribersOf s = [] := by
  rw [Registry.subscribersOf, Assoc.get]
  cases hl : w.registry.subscribers.lookup s with
  | none => rfl
  | some es =>
    obtain ⟨before, after, hsplit, -⟩ := lookup_eq_some_iff.mp hl
    exact absurd (h.slots (s, es) (by simp [hsplit])) hs

lemma Unwatched.trackAll (h : w.Unwatched U)
    (hs : ∀ s ∈ slots, w.heap.Holds s.container.ref) : (w.trackAll slots).Unwatched ∅ := by
  refine ⟨?_, nofun⟩
  have hslots := h.slots
  clear h
  induction slots generalizing w with
  | nil => exact hslots
  | cons s rest ih =>
    have hheap : (w.track s).heap = w.heap := by
      rw [track]
      split <;> rfl
    refine ih (fun t ht => by rw [hheap]; exact hs t (mem_cons_of_mem _ ht)) ?_
    rw [track]
    split
    · exact hslots
    · intro p hp
      rcases Registry.fst_mem_track hp with heq | ⟨q, hq, heq⟩
      · rw [heq]
        exact hs s mem_cons_self
      · rw [← heq]
        exact hslots q hq

lemma triggerAll_of_unwatched (h : ∀ s ∈ slots, w.registry.subscribersOf s = []) :
    triggerAll call slots w = some w := by
  induction slots with
  | nil => rfl
  | cons s rest ih =>
    rw [triggerAll, trigger, h s mem_cons_self]
    exact ih fun t ht => h t (mem_cons_of_mem _ ht)

lemma perform_set (h : w.Unwatched U) (ho : o ∈ U) (name : String) (v : Value) :
    (Op.write (.set o name v) : C.Op).perform call w =
      some ((), { w with heap := ((set o name v).apply w.heap).2.1 }) := by
  have hslots : ∀ s ∈ ((set o name v).apply w.heap).2.2, s.container = .object o := by
    cases hget : (w.heap.fields o).get? name with
    | none => simp [apply, hget, Slot.property, Slot.iteration]
    | some old => cases hold : old.strictEq v <;> simp [apply, hget, hold, Slot.property]
  show (triggerAll call ((set o name v).apply w.heap).2.2 _).map _ = _
  rw [triggerAll_of_unwatched]
  · rfl
  · rintro ⟨c, key⟩ hs
    obtain rfl : c = .object o := hslots _ hs
    exact h.objects o ho key

end World

/-! ## Stages -/

/-- Two worlds show the same up to names: on the slots in `B`, on what the runs have made, and in
their states. `D` holds the names met so far, and `V` the objects that nobody has looked at. -/
structure Stage (τ : Twins T) (B : Set Slot) (D : Set Ref) (V : Set ObjectId)
    (w w' : C.World) : Prop where
  held : ∀ {a a'}, a ∈ D → τ.rel a a' → w.heap.Holds a ∧ w'.heap.Holds a'
  shown : ∀ {s s'}, s ∈ B ∨ s.container.ref ∈ τ.own → Slot.Rel (τ.only D).toNaming s s' →
    Same (τ.only D).toNaming w.heap w'.heap s s'
  hostObjects : ∀ {i i'}, (τ.only D).rel (.host i) (.host i') →
    HostObject.Rel (τ.only D).toNaming (w.heap.hostObject i) (w'.heap.hostObject i')
  /-- What is made next corresponds. -/
  objects : ∀ k, τ.rel (.object ⟨w.heap.objects.size + k⟩) (.object ⟨w'.heap.objects.size + k⟩)
  lists : ∀ k, τ.rel (.list ⟨w.heap.lists.size + k⟩) (.list ⟨w'.heap.lists.size + k⟩)
  hosts : ∀ k, τ.rel (.host ⟨w.heap.hosts.size + k⟩) (.host ⟨w'.heap.hosts.size + k⟩)
  functions : ∀ k, τ.rel (.function ⟨w.state.functions.size + k⟩)
    (.function ⟨w'.state.functions.size + k⟩)
  made : ∀ {a a'}, τ.rel a a' → ¬ w.heap.Holds a → a ∈ τ.own
  room : w.heap.objects.size ≤ w'.heap.objects.size ∧ w.heap.lists.size ≤ w'.heap.lists.size ∧
    w.heap.hosts.size ≤ w'.heap.hosts.size
  state : ∀ {D'}, D ⊆ D' → ViewState.Rel (τ.only D') w.state w'.state
  own : ∀ o ∈ V, .object o ∈ τ.own
  left : w.Unwatched V
  right : w'.Unwatched {o' | ∃ o ∈ V, τ.rel (.object o) (.object o')}

/-- From one stage to a later one, both runs have looked at the same slots and built the same. -/
structure Along (τ : Twins T) (B : Set Slot) (D D1 : Set Ref) (V1 : Set ObjectId)
    (slots slots' : List Slot) (w w' w1 w1' : C.World) : Prop where
  grows : D ⊆ D1
  stage : Stage τ B D1 V1 w1 w1'
  left : Built T τ.own slots w w1
  right : Built T τ.own' slots' w' w1'
  slots : Forall₂ (Slot.Rel τ.toNaming) slots slots'

lemma Along.trans (h : Along τ B D D1 V1 slots slots' w w' w1 w1')
    (h' : Along τ B D1 D2 V2 slots1 slots1' w1 w1' w2 w2') :
    Along τ B D D2 V2 (slots ++ slots1) (slots' ++ slots1') w w' w2 w2' :=
  ⟨h.grows.trans h'.grows, h'.stage, h.left.trans h'.left, h.right.trans h'.right,
    rel_append h.slots h'.slots⟩

namespace Heap

variable {h : Heap}

lemma Same.congr (hs : Same β h h' s s')
    (hf : ∀ o, s.container = .object o → g.fields o = h.fields o)
    (hl : ∀ l, s.container = .list l → g.items l = h.items l)
    (hf' : ∀ o, s'.container = .object o → g'.fields o = h'.fields o)
    (hl' : ∀ l, s'.container = .list l → g'.items l = h'.items l) : Same β g g' s s' := by
  obtain ⟨c, k⟩ := s
  obtain ⟨c', k'⟩ := s'
  cases c with
  | object o =>
    cases c' with
    | object o' =>
      cases k <;> cases k' <;> simp only [Same] at hs ⊢ <;>
        simpa only [hf o rfl, hf' o' rfl] using hs
    | list l' => cases k <;> cases k' <;> trivial
  | list l =>
    cases c' with
    | object o' => cases k <;> cases k' <;> trivial
    | list l' =>
      cases k <;> cases k' <;> simp only [Same] at hs ⊢
      simpa only [hl l rfl, hl' l' rfl] using hs

lemma Same.of_fields (hr : (g.fields o).Rel (Value.Rel β) (g'.fields o')) (key : Key) :
    Same β g g' ⟨.object o, key⟩ ⟨.object o', key⟩ := by
  cases key with
  | property name => exact filter_rel (· == name) hr
  | iteration => exact hr.keys

lemma Same.of_items (hr : Forall₂ (Value.Rel β) (g.items l) (g'.items l')) (key : Key) :
    Same β g g' ⟨.list l, key⟩ ⟨.list l', key⟩ := by
  cases key with
  | property name =>
    refine ⟨fun i _ => ?_, fun _ => hr.length_eq⟩
    exact optionRel_getD (optionRel_getElem? hr i) .undefined
  | iteration => trivial

lemma fields_setFields_of_holds (h : Heap) (ho : h.Holds (.object o))
    (fields : Table Value) : (h.setFields o fields).fields o = fields := by
  have hlt : o.index < h.objects.size := ho
  simp [Heap.fields, Heap.setFields, Array.getD_eq_getD_getElem?, hlt]

@[simp]
lemma size_setFields (h : Heap) (o : ObjectId) (fields : Table Value) :
    (h.setFields o fields).objects.size = h.objects.size := by
  simp [setFields]

lemma built_setFields (fields : Table Value) (ho : .object o ∈ Q) :
    Built T Q [] w { w with heap := w.heap.setFields o fields } := by
  refine .of_heap (w.heap.extends_setFields o fields) (fun x hx => ?_) fun _ _ => rfl
  refine fields_setFields_of_ne _ _ ?_
  rintro rfl
  exact hx ho

/-- A heap with one thing more. -/
structure Adds (h : Heap) (a : Ref) (g : Heap) : Prop extends h.Extends g where
  absent : ¬ h.Holds a
  added : g.Holds a
  fields : ∀ o, .object o ≠ a → g.fields o = h.fields o
  items : ∀ l, .list l ≠ a → g.items l = h.items l

lemma Adds.ne (ha : h.Adds a g) (hb : h.Holds b) : b ≠ a := by
  rintro rfl
  exact ha.absent hb

lemma Adds.built (hext : w.heap.Adds a g) (ha : a ∈ Q) :
    Built T Q [] w { w with heap := g } :=
  .of_heap hext.toExtends (fun o ho => hext.fields o fun heq => ho (heq ▸ ha))
    fun l hl => hext.items l fun heq => hl (heq ▸ ha)

lemma adds_newObject (h : Heap) (fields : Table Value) :
    h.Adds (.object (h.newObject fields).1) (h.newObject fields).2 where
  toExtends := h.extends_newObject fields
  absent := Nat.lt_irrefl _
  added := by simp [Holds, newObject]
  fields o ho := by
    rw [fields_newObject, if_neg]
    intro hi
    cases o
    exact ho (congrArg (fun i => Ref.object ⟨i⟩) hi)
  items _ _ := rfl

lemma adds_newList (h : Heap) (items : List Value) :
    h.Adds (.list (h.newList items).1) (h.newList items).2 where
  toExtends := h.extends_newList items
  absent := Nat.lt_irrefl _
  added := by simp [Holds, newList]
  fields _ _ := rfl
  items l hl := by
    rw [items_newList, if_neg]
    intro hi
    cases l
    exact hl (congrArg (fun i => Ref.list ⟨i⟩) hi)

lemma adds_newHost (h : Heap) (x : HostObject) :
    h.Adds (.host (h.newHost x).1) (h.newHost x).2 where
  toExtends := h.extends_newHost x
  absent := Nat.lt_irrefl _
  added := by simp [Holds, newHost]
  fields _ _ := rfl
  items _ _ := rfl

end Heap

lemma Update.stores_rel (ht : t.Rel (Value.Rel β) t') (name : String) (hv : Value.Rel β v v') :
    stores t name v = stores t' name v' := by
  have hg := ht.get? name
  rw [stores, stores]
  generalize t.get? name = x, t'.get? name = x' at hg
  cases hg with
  | none => rfl
  | some hx => simp [hx.strictEq hv]

namespace Stage

variable {τ : Twins T}
variable (h : Stage τ B D V w w')
include h

lemma agree :
    Agree (τ.only D).toNaming {s | s ∈ B ∨ s.container.ref ∈ τ.own} w.heap w'.heap where
  slots _ hs _ hrel := h.shown hs hrel
  hosts _ _ hi := h.hostObjects hi
  nesting := by
    obtain ⟨ho, hl, hh⟩ := h.room
    exact Nat.mul_le_mul (Nat.succ_le_succ hh) (by omega)

lemma fields (hown : .object o ∈ τ.own) (ho : (τ.only D).rel (.object o) (.object o')) :
    (w.heap.fields o).Rel (τ.only D).value (w'.heap.fields o') :=
  h.agree.entries ho (.inr hown) fun _ _ => .inr hown

lemma slots_held (hs : Forall₂ (Slot.Rel (τ.only D).toNaming) slots slots') :
    (∀ s ∈ slots, w.heap.Holds s.container.ref) ∧ ∀ s ∈ slots', w'.heap.Holds s.container.ref := by
  induction hs with
  | nil => exact ⟨nofun, nofun⟩
  | cons hs _ ih =>
    obtain ⟨hl, hr⟩ := h.held hs.container.1 hs.container.2
    exact ⟨forall_mem_cons.mpr ⟨hl, ih.1⟩, forall_mem_cons.mpr ⟨hr, ih.2⟩⟩

lemma congr (hheap : v.heap = w.heap) (hheap' : v'.heap = w'.heap) (hstate : v.state = w.state)
    (hstate' : v'.state = w'.state) (hown : ∀ o ∈ V1, .object o ∈ τ.own) (hleft : v.Unwatched V1)
    (hright : v'.Unwatched {o' | ∃ o ∈ V1, τ.rel (.object o) (.object o')}) :
    Stage τ B D V1 v v' := by
  obtain ⟨⟩ := v
  obtain ⟨⟩ := v'
  subst hheap hheap' hstate hstate'
  exact { h with own := hown, left := hleft, right := hright }

/-! ### One operation -/

/-- Questions are answered alike, as long as they look at what is shown alike. -/
lemma read {q q' : Query} (hq : q.Rel (τ.only D).toNaming q')
    {a : q.Answer} (ha : q.answer w.heap = some (a, slots))
    (hlook : ∀ s ∈ slots, s ∈ B ∨ s.container.ref ∈ τ.own) :
    ∃ a' slots', q'.answer w'.heap = some (a', slots') ∧ q.AnswerRel (τ.only D).toNaming q' a a' ∧
      Along τ B D D ∅ slots slots' w w' (w.trackAll slots) (w'.trackAll slots') := by
  obtain ⟨a', slots', ha', haa, hss⟩ := Query.answer_rel h.agree hq ha hlook
  obtain ⟨hl, hr⟩ := h.slots_held hss
  have hbuilt : ∀ {Q : Set Ref} (w : C.World) (slots : List Slot),
      Built T Q slots w (w.trackAll slots) := by
    intro Q w slots
    exact ⟨by rw [heap_trackAll]; exact .refl _, fun _ _ => by rw [heap_trackAll],
      fun _ _ => by rw [heap_trackAll], rfl, effects_trackAll w slots,
      active_trackAll w slots, maxDepth_trackAll w slots,
      by rw [state_trackAll]; exact .refl _⟩
  refine ⟨a', slots', ha', haa, subset_rfl, ?_, hbuilt w slots, hbuilt w' slots', ?_⟩
  · refine h.congr (heap_trackAll w slots) (heap_trackAll w' slots')
      (state_trackAll w slots) (state_trackAll w' slots') nofun (h.left.trackAll hl)
      ⟨(h.right.trackAll hr).slots, ?_⟩
    rintro o' ⟨o, ho, -⟩
    exact absurd ho (Set.notMem_empty o)
  · exact hss.imp fun _ _ hs => ⟨hs.container.2, hs.key⟩

lemma add (hnew : τ.rel a a') (hext : w.heap.Adds a g) (hext' : w'.heap.Adds a' g') (hshown : ∀ {c
    c' key}, c.ref = a → c'.ref = a' → Same (τ.only (insert a D)).toNaming g g' ⟨c, key⟩ ⟨c', key⟩)
    (hhost : ∀ {i i'}, .host i = a → .host i' = a' → HostObject.Rel (τ.only (insert a D)).toNaming
      (g.hostObject i) (g'.hostObject i'))
    (hobjects : ∀ k, τ.rel (.object ⟨g.objects.size + k⟩) (.object ⟨g'.objects.size + k⟩))
    (hlists : ∀ k, τ.rel (.list ⟨g.lists.size + k⟩) (.list ⟨g'.lists.size + k⟩))
    (hhosts : ∀ k, τ.rel (.host ⟨g.hosts.size + k⟩) (.host ⟨g'.hosts.size + k⟩)) (hroom :
    g.objects.size ≤ g'.objects.size ∧ g.lists.size ≤ g'.lists.size ∧ g.hosts.size ≤ g'.hosts.size)
    (hV : ∀ o ∈ V1, o ∈ V ∨ .object o = a) :
    Along τ B D (insert a D) V1 [] [] w w' { w with heap := g } { w' with heap := g' } := by
  have hD : D ⊆ insert a D := Set.subset_insert _ _
  have hown := h.made hnew hext.absent
  refine ⟨hD, ?_, ?_, ?_, .nil⟩
  · refine ⟨?_, ?_, ?_, hobjects, hlists, hhosts, h.functions, ?_, hroom,
      fun hD' => h.state (hD.trans hD'), ?_, ?_, ?_⟩
    · rintro b b' (rfl | hb) hrel
      · obtain rfl := (τ.unique hnew hrel).mp rfl
        exact ⟨hext.added, hext'.added⟩
      · obtain ⟨hl, hr⟩ := h.held hb hrel
        exact ⟨hext.toExtends.holds hl, hext'.toExtends.holds hr⟩
    · rintro ⟨c, key⟩ ⟨c', key'⟩ hB ⟨⟨hmem, hrel⟩, hkey⟩
      cases hkey
      rcases hmem with rfl | hmem
      · exact hshown rfl ((τ.unique hrel hnew).mp rfl)
      · obtain ⟨hl, hr⟩ := h.held hmem hrel
        refine ((h.shown hB ⟨⟨hmem, hrel⟩, rfl⟩).mono (τ.only_le hD).rel).congr ?_ ?_ ?_ ?_
        · rintro o rfl
          exact hext.fields o (hext.ne hl)
        · rintro l rfl
          exact hext.items l (hext.ne hl)
        · rintro o rfl
          exact hext'.fields o (hext'.ne hr)
        · rintro l rfl
          exact hext'.items l (hext'.ne hr)
    · rintro i i' ⟨hmem, hrel⟩
      rcases hmem with rfl | hmem
      · exact hhost rfl ((τ.unique hrel hnew).mp rfl)
      · obtain ⟨hl, hr⟩ := h.held hmem hrel
        rw [hext.hostObject i hl, hext'.hostObject i' hr]
        exact (h.hostObjects ⟨hmem, hrel⟩).mono (τ.only_le hD).rel
    · exact fun hrel hnot => h.made hrel fun hh => hnot (hext.toExtends.holds hh)
    · intro o ho
      rcases hV o ho with ho | rfl
      · exact h.own o ho
      · exact hown
    · refine ⟨fun p hp => hext.toExtends.holds (h.left.slots p hp), ?_⟩
      intro o ho key
      rcases hV o ho with ho | rfl
      · exact h.left.objects o ho key
      · exact h.left.notHeld hext.absent
    · refine ⟨fun p hp => hext'.toExtends.holds (h.right.slots p hp), ?_⟩
      rintro o' ⟨o, ho, hrel⟩ key
      rcases hV o ho with ho | rfl
      · exact h.right.objects o' ⟨o, ho, hrel⟩ key
      · obtain rfl := (τ.unique hnew hrel).mp rfl
        exact h.right.notHeld hext'.absent
  · exact hext.built hown
  · exact hext'.built ⟨a, hown, hnew⟩

lemma newObject {fields fields' : Table Value} (hf : fields.Rel (τ.only D).value fields') :
    Along τ B D (insert (.object (w.heap.newObject fields).1) D)
      (insert (w.heap.newObject fields).1 V) [] [] w w'
      { w with heap := (w.heap.newObject fields).2 }
      { w' with heap := (w'.heap.newObject fields').2 } := by
  have hself : ∀ (g : Heap) (t : Table Value), (g.newObject t).2.fields (g.newObject t).1 = t :=
    fun g t => by rw [fields_newObject]; exact if_pos rfl
  have hnew : τ.rel (.object (w.heap.newObject fields).1) (.object (w'.heap.newObject fields').1) :=
    h.objects 0
  refine h.add hnew (w.heap.adds_newObject fields) (w'.heap.adds_newObject fields') ?_ nofun ?_
    h.lists h.hosts ?_ ?_
  · intro c c' key hc hc'
    obtain rfl : c = .object (w.heap.newObject fields).1 := ref_injective hc
    obtain rfl : c' = .object (w'.heap.newObject fields').1 := ref_injective hc'
    refine .of_fields ?_ key
    rw [hself, hself]
    exact hf.imp fun _ _ => (τ.only_le (Set.subset_insert _ _)).value
  · intro k
    have hk := h.objects (k + 1)
    simpa [Heap.newObject, Nat.add_assoc, Nat.add_comm 1 k] using hk
  · obtain ⟨ho, hl, hh⟩ := h.room
    exact ⟨by simpa [Heap.newObject] using ho, hl, hh⟩
  · rintro o (rfl | ho)
    · exact .inr rfl
    · exact .inl ho

lemma newList {items items' : List Value}
    (hi : Forall₂ (τ.only D).value items items') :
    Along τ B D (insert (.list (w.heap.newList items).1) D) V [] [] w w'
      { w with heap := (w.heap.newList items).2 } { w' with heap := (w'.heap.newList items').2 } := by
  have hself : ∀ (g : Heap) (l : List Value), (g.newList l).2.items (g.newList l).1 = l :=
    fun g l => by rw [items_newList]; exact if_pos rfl
  have hnew : τ.rel (.list (w.heap.newList items).1) (.list (w'.heap.newList items').1) := h.lists 0
  refine h.add hnew (w.heap.adds_newList items) (w'.heap.adds_newList items') ?_ nofun h.objects ?_
    h.hosts ?_ fun _ => .inl
  · intro c c' key hc hc'
    obtain rfl : c = .list (w.heap.newList items).1 := ref_injective hc
    obtain rfl : c' = .list (w'.heap.newList items').1 := ref_injective hc'
    refine .of_items ?_ key
    rw [hself, hself]
    exact hi.imp fun _ _ => (τ.only_le (Set.subset_insert _ _)).value
  · intro k
    have hk := h.lists (k + 1)
    simpa [Heap.newList, Nat.add_assoc, Nat.add_comm 1 k] using hk
  · obtain ⟨ho, hl, hh⟩ := h.room
    exact ⟨ho, by simpa [Heap.newList] using hl, hh⟩

lemma newHost (hx : HostObject.Rel (τ.only D).toNaming x x') :
    Along τ B D (insert (.host (w.heap.newHost x).1) D) V [] [] w w'
      { w with heap := (w.heap.newHost x).2 } { w' with heap := (w'.heap.newHost x').2 } := by
  have hself : ∀ (g : Heap) (x : HostObject), (g.newHost x).2.hostObject (g.newHost x).1 = x :=
    fun g x => by rw [hostObject_newHost]; exact if_pos rfl
  have hnew : τ.rel (.host (w.heap.newHost x).1) (.host (w'.heap.newHost x').1) := h.hosts 0
  refine h.add hnew (w.heap.adds_newHost x) (w'.heap.adds_newHost x') ?_ ?_ h.objects h.lists ?_ ?_
    fun _ => .inl
  · intro c c' key hc
    cases c <;> cases hc
  · intro i i' hi hi'
    cases hi
    cases hi'
    rw [hself, hself]
    exact hx.mono (τ.only_le (Set.subset_insert _ _)).rel
  · intro k
    have hk := h.hosts (k + 1)
    simpa [Heap.newHost, Nat.add_assoc, Nat.add_comm 1 k] using hk
  · obtain ⟨ho, hl, hh⟩ := h.room
    exact ⟨ho, hl, by simpa [Heap.newHost] using hh⟩

lemma write (hV : o ∈ V) (ho : (τ.only D).rel (.object o) (.object o'))
    (name : String) (hv : (τ.only D).value v v') :
    Along τ B D D V [] [] w w'
      { w with heap := ((set o name v).apply w.heap).2.1 }
      { w' with heap := ((set o' name v').apply w'.heap).2.1 } := by
  have hown := h.own o hV
  have hfields := h.fields hown ho
  obtain ⟨hl, hr⟩ := h.held ho.1 ho.2
  rw [apply_set, apply_set, stores_rel hfields name hv]
  split
  · have hinsert := hfields.insert name hv
    generalize (w.heap.fields o).insert name v = t, (w'.heap.fields o').insert name v' = t' at hinsert
    have hext := w.heap.extends_setFields o t
    have hext' := w'.heap.extends_setFields o' t'
    refine ⟨subset_rfl, ?_, ?_, ?_, .nil⟩
    · refine { h with
          held := ?_
          shown := ?_
          objects := by simpa using h.objects
          made := fun hrel hnot => h.made hrel fun hh => hnot (hext.holds hh)
          room := ⟨by simpa using h.room.1, h.room.2⟩
          left := ⟨fun p hp => hext.holds (h.left.slots p hp), h.left.objects⟩
          right := ⟨fun p hp => hext'.holds (h.right.slots p hp), h.right.objects⟩ }
      · intro a a' ha hrel
        obtain ⟨hl, hr⟩ := h.held ha hrel
        exact ⟨hext.holds hl, hext'.holds hr⟩
      · rintro ⟨c, key⟩ ⟨c', key'⟩ hB ⟨hc, hkey⟩
        cases hkey
        by_cases heq : c = .object o
        · subst heq
          obtain rfl : c' = .object o' := ref_injective ((τ.unique hc.2 ho.2).mp rfl)
          refine .of_fields ?_ key
          rw [fields_setFields_of_holds _ hl, fields_setFields_of_holds _ hr]
          exact hinsert
        · refine (h.shown hB ⟨hc, rfl⟩).congr ?_ (fun _ _ => rfl) ?_ (fun _ _ => rfl)
          · rintro x rfl
            refine fields_setFields_of_ne _ _ ?_
            rintro rfl
            exact heq rfl
          · rintro x rfl
            refine fields_setFields_of_ne _ _ ?_
            rintro rfl
            exact heq (ref_injective ((τ.unique hc.2 ho.2).mpr rfl))
    · exact built_setFields t hown
    · exact built_setFields t' ⟨_, hown, ho.2⟩
  · exact ⟨subset_rfl, h, .refl w, .refl w', .nil⟩

def addedFunctions (s x : ViewState C) : Set Ref :=
  {a | ∃ k, s.functions.size + k < x.functions.size ∧ a = .function ⟨s.functions.size + k⟩}

lemma modify {f f' : ViewState C → ViewState C}
    (hf : ∀ {D'}, D ⊆ D' → ∀ s s', Rel (τ.only D') s s' →
      Change (τ.only D') s s' (f s) (f' s')) :
    Along τ B D (D ∪ addedFunctions w.state (f w.state)) V [] [] w w'
      { w with state := f w.state } { w' with state := f' w'.state } := by
  have hD : D ⊆ D ∪ addedFunctions w.state (f w.state) := Set.subset_union_left
  have hheap : ∀ {a}, a ∈ D ∪ addedFunctions w.state (f w.state) → a.InHeap → a ∈ D := by
    rintro a (ha | ⟨k, -, rfl⟩) hin
    · exact ha
    · exact hin.elim
  have hchange := hf subset_rfl _ _ (h.state subset_rfl)
  refine ⟨hD, ?_, ?_, ?_, .nil⟩
  · refine { h with
        held := ?_
        shown := ?_
        hostObjects := ?_
        functions := ?_
        state := fun hD' => (hf (hD.trans hD') _ _ (h.state (hD.trans hD'))).rel
        left := ⟨h.left.slots, h.left.objects⟩
        right := ⟨h.right.slots, h.right.objects⟩ }
    · rintro a a' (ha | ⟨k, -, rfl⟩) hrel
      · exact h.held ha hrel
      · cases (τ.unique (h.functions k) hrel).mp rfl
        exact ⟨trivial, trivial⟩
    · rintro s s' hB ⟨⟨hmem, hrel⟩, hkey⟩
      have hmem : s.container.ref ∈ D := hheap hmem (by cases s.container <;> trivial)
      exact (h.shown hB ⟨⟨hmem, hrel⟩, hkey⟩).mono (τ.only_le hD).rel
    · rintro i i' ⟨hmem, hrel⟩
      exact (h.hostObjects ⟨hheap hmem trivial, hrel⟩).mono (τ.only_le hD).rel
    · intro k
      obtain ⟨n, hn⟩ := Nat.exists_eq_add_of_le hchange.keeps.more
      have hadded := hchange.added
      have hn' : (f' w'.state).functions.size = w'.state.functions.size + n := by omega
      rw [hn, hn', Nat.add_assoc, Nat.add_assoc]
      exact h.functions (n + k)
  · exact { Built.refl (T := T) (Q := τ.own) w with state := hchange.keeps }
  · exact { Built.refl (T := T) (Q := τ.own') w' with state := hchange.keeps' }

end Stage

end LiveMarkup
