import LiveMarkup.Proofs.Honesty

/-!
# Honest programs

What the programs of an application may do is its `Conduct`: which operations they may perform, what
they may make of the application's state, and which names its code, results and state mention. A
program is honest when it keeps to the conduct and mentions known names only; what it is answered
with it knows from then on.
-/

namespace LiveMarkup

open Set (subset_insert subset_union_left)

variable {h : Heap}

def Ref.InHeap : Ref → Prop
  | .object _ | .list _ | .host _ => True
  | .function _ | .store _ => False

/-- What the programs of an application may do, and which names its parts mention. -/
structure Conduct (S : Signature) where
  code : Set Ref → S.Code → Prop
  reply : Set Ref → (c : S.Code) → S.Reply c → Prop
  /-- State in which known names lead to known names. -/
  state : Set Ref → S.State → Prop
  permits : Op S → Prop
  /-- What programs that know these names may make of the state. -/
  keeps : Set Ref → S.State → S.State → Prop
  born : S.State → S.State → Set Ref
  code_mono : ∀ {K K' c}, K ⊆ K' → code K c → code K' c
  reply_mono : ∀ {K K' c r}, K ⊆ K' → reply K c r → reply K' c r
  state_insert : ∀ {K x a}, state K x → a.InHeap → state (insert a K) x
  born_notInHeap : ∀ {x y a}, a ∈ born x y → ¬ a.InHeap
  state_keeps : ∀ {K x y}, state K x → keeps K x y → state (K ∪ born x y) y

def Op.Mentions (m : Conduct S) (K : Set Ref) : Op S → Prop
  | .read q | .peek q => q.Known K
  | .write u => u.Known K
  | .newObject fields => fields.Known K
  | .newList items => ∀ v ∈ items, v.Known K
  | .newHost h => h.Known K
  | .call c | .within _ c | .spawn c => m.code K c
  | .track s => s.container.ref ∈ K
  | .modify f => ∀ x, m.state K x → m.keeps K x (f x)
  | _ => True

def Op.Reveals (m : Conduct S) (K : Set Ref) : (op : Op S) → op.Reply → Prop
  | .read q, a | .peek q, a => q.AnswerKnown K a
  | .write u, r => u.ResultKnown K r
  | .newObject _, o => .object o ∈ K
  | .newList _, l => .list l ∈ K
  | .newHost _, i => .host i ∈ K
  | .call c, r | .within _ c, r => m.reply K c r
  | .get, x => m.state K x
  | .modify f, x => (∃ K0 ⊆ K, m.state K0 x) ∧ m.born x (f x) ⊆ K
  | _, _ => True

/-- A program that keeps to the conduct and starts knowing the names in `K`. Its result satisfies
`post` with what it knows in the end. -/
inductive Program.Honest (m : Conduct S) (post : Set Ref → α → Prop) :
    Set Ref → Program S α → Prop
  | done (h : post K a) : Honest m post K (done a)
  | step (permitted : m.permits op) (mentions : op.Mentions m K)
      (rest : ∀ r K', K ⊆ K' → op.Reveals m K' r → Honest m post K' (next r)) :
      Honest m post K (step op next)

lemma Program.Honest.bind {f : α → Program S β} (hp : p.Honest m post K)
    (hf : ∀ a K', K ⊆ K' → post K' a → (f a).Honest m post' K') : (p >>= f).Honest m post' K := by
  induction hp with
  | done h => exact hf _ _ subset_rfl h
  | step permitted mentions _ ih =>
    refine .step permitted mentions ?_
    intro r K' hK hr
    exact ih r K' hK hr fun a K'' hK' => hf a K'' (hK.trans hK')

/-! ## Sealed worlds -/

/-- Everything known is there and leads to known things only; effects run known code and subscribe
to containers that are there. -/
structure World.Sealed (m : Conduct S) (K : Set Ref) (w : World S) : Prop where
  heap : w.heap.Sealed K
  state : m.state K w.state
  effects : ∀ {e c}, w.effectBody e = some c → m.code K c
  slots : ∀ p ∈ w.registry.subscribers, w.heap.Holds p.1.container.ref

namespace Heap

/-! ### New containers -/

section

variable (h)

lemma fields_newObject (fields : Table Value) (o : ObjectId) :
    (h.newObject fields).2.fields o = if o.index = h.objects.size then fields else h.fields o := by
  simp only [newObject, Heap.fields, Array.getD_eq_getD_getElem?, Array.getElem?_push]
  split <;> rfl

lemma items_newList (items : List Value) (l : ListId) :
    (h.newList items).2.items l = if l.index = h.lists.size then items else h.items l := by
  simp only [newList, Heap.items, Array.getD_eq_getD_getElem?, Array.getElem?_push]
  split <;> rfl

lemma hostObject_newHost (x : HostObject) (i : HostId) :
    (h.newHost x).2.hostObject i = if i.index = h.hosts.size then x else h.hostObject i := by
  simp only [newHost, hostObject, Array.getD_eq_getD_getElem?, Array.getElem?_push]
  split <;> rfl

lemma extends_newObject (fields : Table Value) : h.Extends (h.newObject fields).2 :=
  ⟨by simp [newObject], le_rfl, le_rfl, fun _ _ => rfl⟩

lemma extends_newList (items : List Value) : h.Extends (h.newList items).2 :=
  ⟨le_rfl, by simp [newList], le_rfl, fun _ _ => rfl⟩

lemma extends_newHost (x : HostObject) : h.Extends (h.newHost x).2 := by
  refine ⟨le_rfl, le_rfl, by simp [newHost], ?_⟩
  intro i hi
  rw [hostObject_newHost, if_neg (by omega)]

lemma unchanged_newObject (fields : Table Value)
    (hs : h.Holds s.container.ref) : h.Unchanged (h.newObject fields).2 s := by
  refine .of_eq ?_ fun _ _ => rfl
  intro o ho
  rw [ho] at hs
  rw [fields_newObject, if_neg (Nat.ne_of_lt hs)]

lemma unchanged_newList (items : List Value)
    (hs : h.Holds s.container.ref) : h.Unchanged (h.newList items).2 s := by
  refine .of_eq (fun _ _ => rfl) ?_
  intro l hl
  rw [hl] at hs
  rw [items_newList, if_neg (Nat.ne_of_lt hs)]

end

/-- The heap gets a container that is known to hold known values, and no other one changes. -/
lemma Sealed.insert {K : Set Ref} {h h' : Heap} (hK : h.Sealed K) (he : h.Extends h')
    (ha : h'.Holds a)
    (hfields : ∀ o, (h'.fields o).Known K ∨ .object o ≠ a ∧ h'.fields o = h.fields o)
    (hitems : ∀ l, (∀ v ∈ h'.items l, v.Known K) ∨ .list l ≠ a ∧ h'.items l = h.items l)
    (hhosts : ∀ i, (h'.hostObject i).Known K ∨ .host i ≠ a ∧ h'.hostObject i = h.hostObject i) :
    Sealed (insert a K) h' where
  holds := by
    rintro b (rfl | hb)
    · exact ha
    · exact he.holds (hK.holds b hb)
  fields o ho e hmem := by
    refine .mono (subset_insert a K) ?_
    rcases hfields o with hf | ⟨hne, heq⟩
    · exact hf e hmem
    · exact hK.fields o (ho.resolve_left hne) e (heq ▸ hmem)
  items l hl v hmem := by
    refine .mono (subset_insert a K) ?_
    rcases hitems l with hi | ⟨hne, heq⟩
    · exact hi v hmem
    · exact hK.items l (hl.resolve_left hne) v (heq ▸ hmem)
  hosts i hi := by
    refine .mono (subset_insert a K) ?_
    rcases hhosts i with hx | ⟨hne, heq⟩
    · exact hx
    · exact heq ▸ hK.hosts i (hi.resolve_left hne)

lemma Sealed.union (hK : h.Sealed K) (hN : ∀ a ∈ N, ¬ a.InHeap) : h.Sealed (K ∪ N) where
  holds := by
    rintro a (ha | ha)
    · exact hK.holds a ha
    · cases a with
      | object | list | host => exact absurd trivial (hN _ ha)
      | function | store => trivial
  fields o ho e he :=
    (hK.fields o (ho.resolve_right fun h => hN _ h trivial) e he).mono subset_union_left
  items l hl v hv :=
    (hK.items l (hl.resolve_right fun h => hN _ h trivial) v hv).mono subset_union_left
  hosts i hi := (hK.hosts i (hi.resolve_right fun h => hN _ h trivial)).mono subset_union_left

lemma Sealed.newObject (hK : h.Sealed K) {fields : Table Value} (hf : fields.Known K) :
    Sealed (Insert.insert (.object (h.newObject fields).1) K) (h.newObject fields).2 := by
  have he := h.extends_newObject fields
  refine hK.insert he (by simp [Holds, Heap.newObject]) (fun o => ?_)
    (fun _ => .inr ⟨by simp, rfl⟩) (fun _ => .inr ⟨by simp, rfl⟩)
  rw [fields_newObject]
  split
  · exact .inl hf
  · rename_i hne
    exact .inr ⟨fun heq => hne (by cases heq; rfl), rfl⟩

lemma Sealed.newList (hK : h.Sealed K) {items : List Value} (hi : ∀ v ∈ items, v.Known K) :
    Sealed (Insert.insert (.list (h.newList items).1) K) (h.newList items).2 := by
  have he := h.extends_newList items
  refine hK.insert he (by simp [Holds, Heap.newList]) (fun _ => .inr ⟨by simp, rfl⟩) (fun l => ?_)
    (fun _ => .inr ⟨by simp, rfl⟩)
  rw [items_newList]
  split
  · exact .inl hi
  · rename_i hne
    exact .inr ⟨fun heq => hne (by cases heq; rfl), rfl⟩

lemma Sealed.newHost (hK : h.Sealed K) (hx : x.Known K) :
    Sealed (Insert.insert (.host (h.newHost x).1) K) (h.newHost x).2 := by
  have he := h.extends_newHost x
  refine hK.insert he (by simp [Holds, Heap.newHost]) (fun _ => .inr ⟨by simp, rfl⟩)
    (fun _ => .inr ⟨by simp, rfl⟩) fun i => ?_
  rw [hostObject_newHost]
  split
  · exact .inl hx
  · rename_i hne
    exact .inr ⟨fun heq => hne (by cases heq; rfl), rfl⟩

end Heap

namespace World

variable {w w' : World S}

section

variable (hK : w.Sealed m K)
include hK

lemma Sealed.congr (hheap : w'.heap = w.heap) (hstate : w'.state = w.state)
    (heffects : ∀ {e c}, w'.effectBody e = some c → w.effectBody e = some c)
    (hregistry : ∀ p ∈ w'.registry.subscribers, ∃ q ∈ w.registry.subscribers, q.1 = p.1) :
    w'.Sealed m K where
  heap := hheap ▸ hK.heap
  state := hstate ▸ hK.state
  effects hb := hK.effects (heffects hb)
  slots := by
    intro p hp
    obtain ⟨q, hq, hfst⟩ := hregistry p hp
    rw [hheap, ← hfst]
    exact hK.slots q hq

lemma Sealed.insert (he : w.heap.Extends h) (hh : h.Sealed (Insert.insert a K)) (ha : a.InHeap) :
    { w with heap := h }.Sealed m (Insert.insert a K) where
  heap := hh
  state := m.state_insert hK.state ha
  effects hb := m.code_mono (subset_insert a K) (hK.effects hb)
  slots p hp := he.holds (hK.slots p hp)

lemma Sealed.track (hs : s.container.ref ∈ K) : (w.track s).Sealed m K := by
  rw [World.track]
  split
  · exact hK
  · refine ⟨hK.heap, hK.state, hK.effects, ?_⟩
    intro p hp
    rcases Registry.fst_mem_track hp with heq | ⟨q, hq, heq⟩
    · rw [heq]
      exact hK.heap.holds _ hs
    · rw [← heq]
      exact hK.slots q hq

lemma Sealed.trackAll {slots : List Slot} (hs : ∀ s ∈ slots, s.container.ref ∈ K) :
    (w.trackAll slots).Sealed m K := by
  induction slots generalizing w with
  | nil => exact hK
  | cons s rest ih =>
    exact ih (hK.track (hs s List.mem_cons_self)) fun t ht => hs t (List.mem_cons_of_mem _ ht)

lemma Sealed.dispose (e : EffectId) : (w.dispose e).Sealed m K := by
  refine hK.congr ?_ ?_ ?_ ?_
  · rw [World.dispose]
    split <;> rfl
  · rw [World.dispose]
    split <;> rfl
  · intro e' c hb
    rw [effectBody_dispose] at hb
    split at hb
    · cases hb
    · exact hb
  · intro p hp
    rw [World.dispose] at hp
    split at hp
    · exact ⟨p, hp, rfl⟩
    · exact Registry.fst_mem_clearDependencies hp

/-- Operations that run no code keep a world sealed, and their replies are known afterwards. -/
lemma Sealed.perform {op : Op S} (hi : op.IsInert) (hm : op.Mentions m K) {r : op.Reply}
    (hr : op.perform call w = some (r, w')) :
    ∃ K', K ⊆ K' ∧ w'.Sealed m K' ∧ op.Reveals m K' r := by
  cases op with
  | read q =>
    obtain ⟨⟨a, slots⟩, ha, ⟨⟩⟩ := Option.map_eq_some_iff.mp hr
    obtain ⟨hknown, hslots⟩ := hK.heap.answer_known hm ha
    exact ⟨K, subset_rfl, hK.trackAll hslots, hknown⟩
  | peek q =>
    obtain ⟨⟨a, slots⟩, ha, ⟨⟩⟩ := Option.map_eq_some_iff.mp hr
    exact ⟨K, subset_rfl, hK, (hK.heap.answer_known hm ha).1⟩
  | newObject fields =>
    cases hr
    exact ⟨_, subset_insert _ _, hK.insert (w.heap.extends_newObject fields)
      (hK.heap.newObject hm) trivial, Set.mem_insert _ _⟩
  | newList items =>
    cases hr
    exact ⟨_, subset_insert _ _, hK.insert (w.heap.extends_newList items)
      (hK.heap.newList hm) trivial, Set.mem_insert _ _⟩
  | newHost h =>
    cases hr
    exact ⟨_, subset_insert _ _, hK.insert (w.heap.extends_newHost h)
      (hK.heap.newHost hm) trivial, Set.mem_insert _ _⟩
  | dispose e =>
    cases hr
    exact ⟨K, subset_rfl, hK.dispose e, trivial⟩
  | track s =>
    cases hr
    exact ⟨K, subset_rfl, hK.track hm, trivial⟩
  | clearDependencies e =>
    cases hr
    exact ⟨K, subset_rfl, hK.congr rfl rfl id fun _ hp => Registry.fst_mem_clearDependencies hp,
      trivial⟩
  | modify f =>
    cases hr
    have hkeeps := hm _ hK.state
    refine ⟨K ∪ m.born w.state (f w.state), subset_union_left, ⟨?_, ?_, ?_, hK.slots⟩,
      ⟨K, subset_union_left, hK.state⟩, Set.subset_union_right⟩
    · exact hK.heap.union fun a ha => m.born_notInHeap ha
    · exact m.state_keeps hK.state hkeeps
    · exact fun hb => m.code_mono subset_union_left (hK.effects hb)
  | get =>
    cases hr
    exact ⟨K, subset_rfl, hK, hK.state⟩
  | write | call | within | spawn | rerun | trigger => exact hi.elim
  | _ =>
    cases hr
    exact ⟨K, subset_rfl, hK.congr rfl rfl id fun p hp => ⟨p, hp, rfl⟩, trivial⟩

lemma Sealed.enter (e : EffectId) : (w.enter e).Sealed m K := by
  refine hK.congr (heap_enter w e) (state_enter w e) ?_ ?_
  · intro e' c hb
    rwa [effectBody_congr (effects_enter w e), effectBody_modifyDepth] at hb
  · intro p hp
    rw [registry_enter] at hp
    exact Registry.fst_mem_clearDependencies hp

lemma Sealed.leave (e : EffectId) (before : Option EffectId) : (w.leave e before).Sealed m K := by
  refine hK.congr rfl rfl ?_ fun p hp => ⟨p, hp, rfl⟩
  intro e' c hb
  rwa [World.leave, effectBody_modifyDepth] at hb

end

end World

end LiveMarkup
