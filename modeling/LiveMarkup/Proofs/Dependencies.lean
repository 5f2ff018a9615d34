import LiveMarkup.Proofs.Quiet

/-!
# Rendering depends on nothing but what it tracked

An effect renders a routine, and the registry keeps the slots that were looked at. In any other heap
that shows the same at these slots the routine renders to the same text, or fails the same way, and
tracks the same slots. The second heap may hold more than the first: the names of what the second
rendering makes have then moved by as much as there is more.

The two runs are twins. The first run is side by side with itself, so it only looks and builds, and
what it looked at while it ran is what it depends on in the end; the second run is side by side with
the first as far as the two heaps agree on these slots.
-/

namespace LiveMarkup

open World Twins

variable {T : Terms C} {beh : Behaviour C}
variable {w : C.World} {a : Ref}

open Program

/-! ## Names that move -/

/-- Where number `i` of `n` goes when there are `m` instead. -/
def moveIndex (n m i : Nat) : Nat :=
  if i < n then i else i - n + m

lemma moveIndex_of_lt (h : i < n) : moveIndex n m i = i :=
  if_pos h

lemma moveIndex_add (n m k : Nat) : moveIndex n m (n + k) = m + k := by
  rw [moveIndex, if_neg (by omega)]
  omega

lemma moveIndex_inj (h : n ≤ m) (heq : moveIndex n m i = moveIndex n m j) : i = j := by
  rw [moveIndex, moveIndex] at heq
  split at heq <;> split at heq <;> omega

/-- The second world has room for all that the first has. -/
structure World.FitsIn (w w' : C.World) : Prop where
  objects : w.heap.objects.size ≤ w'.heap.objects.size
  lists : w.heap.lists.size ≤ w'.heap.lists.size
  hosts : w.heap.hosts.size ≤ w'.heap.hosts.size
  functions : w.state.functions.size ≤ w'.state.functions.size

/-- What a name of the first world is in the second: the same as long as it is there, else the one
that comes up at the same time. -/
def Ref.moved (w w' : C.World) : Ref → Ref
  | .object o => .object ⟨moveIndex w.heap.objects.size w'.heap.objects.size o.index⟩
  | .list l => .list ⟨moveIndex w.heap.lists.size w'.heap.lists.size l.index⟩
  | .host i => .host ⟨moveIndex w.heap.hosts.size w'.heap.hosts.size i.index⟩
  | .function f => .function ⟨moveIndex w.state.functions.size w'.state.functions.size f.index⟩
  | .store id => .store id

lemma Ref.moved_inj (hfit : w.FitsIn w') : a = b ↔ a.moved w w' = b.moved w w' := by
  refine ⟨fun h => by rw [h], fun h => ?_⟩
  cases a <;> cases b <;> simp only [Ref.moved, reduceCtorEq, Ref.object.injEq, Ref.list.injEq,
    Ref.host.injEq, Ref.function.injEq, ObjectId.mk.injEq, ListId.mk.injEq, HostId.mk.injEq,
    FunctionId.mk.injEq] at h
  · exact congrArg Ref.object (congrArg ObjectId.mk (moveIndex_inj hfit.objects h))
  · exact congrArg Ref.list (congrArg ListId.mk (moveIndex_inj hfit.lists h))
  · exact congrArg Ref.host (congrArg HostId.mk (moveIndex_inj hfit.hosts h))
  · exact congrArg Ref.function (congrArg FunctionId.mk (moveIndex_inj hfit.functions h))
  · exact h

lemma Ref.moved_of_not_lacks (w' : C.World) (ha : ¬ w.Lacks a) : a.moved w w' = a := by
  cases a with
  | object o => exact congrArg (fun i => Ref.object ⟨i⟩) (moveIndex_of_lt (not_not.mp ha))
  | list l => exact congrArg (fun i => Ref.list ⟨i⟩) (moveIndex_of_lt (not_not.mp ha))
  | host i => exact congrArg (fun i => Ref.host ⟨i⟩) (moveIndex_of_lt (not_not.mp ha))
  | function f =>
    exact congrArg (fun i => Ref.function ⟨i⟩) (moveIndex_of_lt (Nat.lt_of_not_le ha))
  | store id => rfl

/-- Known names correspond to themselves. -/
def Twins.same (T : Terms C) (K : Set Ref) : Twins T where
  toNaming := .same K
  own := ∅
  calls := True

/-- Known names correspond to themselves, and what is made from now on as it comes up. -/
def Twins.across (T : Terms C) (K : Set Ref) {w w' : C.World} (hfit : w.FitsIn w') :
    Twins T where
  rel a b := (a ∈ K ∨ w.Lacks a) ∧ a.moved w w' = b
  unique := by
    rintro a b a' b' ⟨-, rfl⟩ ⟨-, rfl⟩
    exact Ref.moved_inj hfit
  own := {a | ¬ w.heap.Holds a}
  calls := True

def Registry.tracked (r : Registry) (e : EffectId) : Set Slot :=
  {s | e ∈ r.subscribersOf s}

lemma Registry.mem_subscribers_of_tracked {r : Registry}
    (hs : s ∈ r.tracked e) : ∃ es, (s, es) ∈ r.subscribers := by
  have hs : e ∈ (r.subscribers.lookup s).getD [] := hs
  cases hl : r.subscribers.lookup s with
  | none => simp [hl] at hs
  | some es =>
    obtain ⟨before, after, hsplit, -⟩ := List.lookup_eq_some_iff.mp hl
    exact ⟨es, by simp [hsplit]⟩

/-! ## Scenes -/

/-- What templates may know: all of it is there and leads to known things only, and everything
registered is known. -/
structure Scene (T : Terms C) (K : Set Ref) (w : C.World) : Prop where
  heap : w.heap.Sealed K
  functions : ∀ f, .function f ∈ K → f.index < w.state.functions.size
  state : ViewState.Rel (same T K) w.state w.state
  registered : (same T K).Open
  slots : ∀ p ∈ w.registry.subscribers, w.heap.Holds p.1.container.ref

/-- A world in which a scene can be played again: everything known shows the same on the slots in
`B`. -/
structure Scene.Again (T : Terms C) (K : Set Ref) (B : Set Slot) (w w' : C.World) :
    Prop where
  heap : w.heap.Extends w'.heap
  functions : w.state.functions.size ≤ w'.state.functions.size
  state : ViewState.Rel (same T K) w.state w'.state
  slots : ∀ p ∈ w'.registry.subscribers, w'.heap.Holds p.1.container.ref
  unchanged : ∀ s ∈ B, s.container.ref ∈ K → w.heap.Unchanged w'.heap s

lemma Scene.Again.fits (h : Scene.Again T K B w w') : w.FitsIn w' :=
  ⟨h.heap.objects, h.heap.lists, h.heap.hosts, h.functions⟩

namespace Scene

section

variable (h : Scene T K w)
include h

lemma not_lacks (ha : a ∈ K) : ¬ w.Lacks a := by
  have hheld := h.heap.holds a ha
  cases a with
  | object | list | host => exact not_not.mpr hheld
  | function f => exact Nat.not_le.mpr (h.functions f ha)
  | store => exact id

lemma same_le (hfit : w.FitsIn w') (hD : K ⊆ D) : (same T K).Le ((across T K hfit).only D) := by
  refine ⟨?_, nofun⟩
  rintro a b ⟨ha, rfl⟩
  exact ⟨hD ha, .inl ha, Ref.moved_of_not_lacks w' (h.not_lacks ha)⟩

lemma again (B : Set Slot) : Again T K B w w :=
  ⟨.refl _, le_rfl, h.state, h.slots, fun _ _ _ => .of_eq (fun _ _ => rfl) fun _ _ => rfl⟩

lemma state_across (hagain : Again T K B w w') (hD : K ⊆ D) :
    ViewState.Rel ((across T K hagain.fits).only D) w.state w'.state := by
  have hle := h.same_le hagain.fits hD
  have hstate := hagain.state
  have hmore := hagain.functions
  refine ⟨?_, ?_, ?_, hstate.catalog, hstate.settings, hstate.pushed, hstate.compiled⟩
  · rintro ⟨i⟩ ⟨i'⟩ ⟨-, hknown, hmoved⟩
    cases hmoved
    by_cases hlt : i < w.state.functions.size
    · have hmem : .function ⟨i⟩ ∈ K := hknown.resolve_right (Nat.not_le.mpr hlt)
      have hcode := hstate.functions (f := ⟨i⟩) ⟨hmem, rfl⟩
      rw [moveIndex_of_lt hlt]
      exact optionRel_imp hcode fun _ _ hc => hc.mono hle
    · obtain ⟨k, rfl⟩ := Nat.exists_eq_add_of_le (Nat.le_of_not_lt hlt)
      simp only [moveIndex_add]
      rw [Array.getElem?_eq_none (by omega), Array.getElem?_eq_none (by omega)]
      exact .none
  · rintro ⟨i⟩ ⟨i'⟩ ⟨-, -, hmoved⟩ k
    cases hmoved
    simp only [moveIndex]
    split <;> omega
  · rintro id id' ⟨-, hknown, hmoved⟩
    cases hmoved
    have hmem : .store id ∈ K := hknown.resolve_right fun h => h
    have hstore := hstate.stores (show (same T K).rel (.store id) (.store id) from ⟨hmem, rfl⟩)
    exact optionRel_imp hstore fun _ _ hs => hs.mono hle

lemma stage (hagain : Again T K B w w') :
    Stage (across T K hagain.fits) B K ∅ w w' where
  held := by
    rintro a a' ha ⟨-, rfl⟩
    have hheld := h.heap.holds a ha
    rw [Ref.moved_of_not_lacks w' (h.not_lacks ha)]
    exact ⟨hheld, hagain.heap.holds hheld⟩
  shown := by
    rintro ⟨c, key⟩ ⟨c', key'⟩ hB ⟨⟨hmem, -, hmoved⟩, hkey⟩
    cases hkey
    rw [Ref.moved_of_not_lacks w' (h.not_lacks hmem)] at hmoved
    obtain rfl := Container.ref_injective hmoved
    have hs : (⟨c, key⟩ : Slot) ∈ B := hB.resolve_right fun hown => hown (h.heap.holds _ hmem)
    exact (h.heap.same hmem (hagain.unchanged _ hs hmem)).mono
      (h.same_le hagain.fits subset_rfl).rel
  hostObjects := by
    rintro i i' ⟨hmem, -, hmoved⟩
    rw [Ref.moved_of_not_lacks w' (h.not_lacks hmem)] at hmoved
    cases hmoved
    have hsame := hagain.heap.hostObject i (h.heap.holds _ hmem)
    exact (HostObject.rel_same.mpr ⟨hsame.symm, h.heap.hosts i hmem⟩).mono
      (h.same_le hagain.fits subset_rfl).rel
  objects k := ⟨.inr (by simp [Lacks, Heap.Holds]), by simp [Ref.moved, moveIndex_add]⟩
  lists k := ⟨.inr (by simp [Lacks, Heap.Holds]), by simp [Ref.moved, moveIndex_add]⟩
  hosts k := ⟨.inr (by simp [Lacks, Heap.Holds]), by simp [Ref.moved, moveIndex_add]⟩
  functions k := ⟨.inr (by simp [Lacks]), by simp [Ref.moved, moveIndex_add]⟩
  made _ hno := hno
  room := ⟨hagain.heap.objects, hagain.heap.lists, hagain.heap.hosts⟩
  state hD := h.state_across hagain hD
  own := nofun
  left := ⟨h.slots, nofun⟩
  right := by
    refine ⟨hagain.slots, ?_⟩
    rintro o' ⟨o, ho, -⟩
    exact absurd ho (Set.notMem_empty o)

end

end Scene

/-! ## Playing a scene again -/

/-- Programs of templates that mention nothing but what is known. -/
def Scene.Plays (T : Terms C) (K : Set Ref) {α : Type} (R : Twins T → α → α → Prop)
    (p : View C α) : Prop :=
  ∀ {τ : Twins T}, (same T K).Le τ → τ.Open → Alike τ (R τ) p p

namespace Scene

variable {R : Twins T → α → α → Prop}

lemma registered_across (h : Scene T K w) (hfit : w.FitsIn w') (hD : K ⊆ D) :
    ((across T K hfit).only D).Open :=
  h.registered.mono (h.same_le hfit hD) trivial

lemma poised (h : Scene T K w) (hp : Plays T K R p) : Poised T {a | ¬ w.heap.Holds a} p w := by
  have hagain := h.again Set.univ
  refine ⟨.across T K hagain.fits, K, ∅, rfl, h.stage hagain,
    fun _ => h.registered_across hagain.fits subset_rfl, ?_⟩
  intro D' hD'
  have halike := hp (h.same_le hagain.fits hD') (h.registered_across hagain.fits hD')
  exact (likeness _).imp halike (fun _ _ _ => trivial) ∅

section

variable (hmakers : ∀ b ∈ T.makers, beh.Makes T b) (h : Scene T K w) (hp : Plays T K R p) {a : α}
include hmakers h hp

lemma built (hr : p.run (beh.quietly T n) w = some (a, w1)) :
    ∃ slots, Built T {a | ¬ w.heap.Holds a} slots w w1 ∧
      (∀ q ∈ w1.registry.subscribers, w1.heap.Holds q.1.container.ref) ∧ T.Compiled w1.state :=
  (h.poised hp).run hmakers hr

/-- What a run has come to, it comes to again in any world that shows the same where the run has
looked. -/
lemma replay (ha : w.active = some e) (hr : p.run (beh.quietly T n) w = some (a, w1))
    (hagain : Again T K (w1.registry.tracked e) w w') :
    Follows (.across T K hagain.fits) (w1.registry.tracked e) K w w'
      (fun D' _ => R ((across T K hagain.fits).only D')) a w1
      (p.run ((View.semantics beh).caller n) w') := by
  refine staysAlong hmakers n (Looking.tracked hmakers {a | ¬ w.heap.Holds a} e _)
    (h.stage hagain) (fun _ => h.registered_across hagain.fits subset_rfl) ?_
    ⟨h.poised hp, ha, a, w1, hr, fun _ hs => hs⟩ hr
  intro D' hD'
  exact hp (h.same_le hagain.fits hD') (h.registered_across hagain.fits hD') ∅

end

end Scene

/-! ## Slots that move -/

def Container.moved (h h' : Heap) : Container → Container
  | .object o => .object ⟨moveIndex h.objects.size h'.objects.size o.index⟩
  | .list l => .list ⟨moveIndex h.lists.size h'.lists.size l.index⟩

def Slot.moved (h h' : Heap) (s : Slot) : Slot :=
  { s with container := s.container.moved h h' }

lemma Container.ref_moved (w w' : C.World) (c : Container) :
    c.ref.moved w w' = (c.moved w.heap w'.heap).ref := by
  cases c <;> rfl

lemma Slot.Rel.eq_moved {hfit : w.FitsIn w'} (h : Slot.Rel (across T K hfit).toNaming s s') :
    s' = s.moved w.heap w'.heap := by
  obtain ⟨c, key⟩ := s
  obtain ⟨c', key'⟩ := s'
  obtain ⟨⟨-, hmoved⟩, hkey⟩ := h
  cases hkey
  rw [Container.ref_moved] at hmoved
  exact congrArg (Slot.mk · key) (Container.ref_injective hmoved).symm

lemma World.Built.tracked (h : Built T Q slots w w1) (ha : w.active = some e)
    (hnew : w.registry.tracked e = ∅) : w1.registry.tracked e = {s | s ∈ slots} := by
  ext s
  have hs : e ∉ w.registry.subscribersOf s := fun hs => Set.notMem_empty s (hnew ▸ hs)
  simp only [Registry.tracked, Set.mem_ofPred_eq]
  rw [h.registry, mem_subscribersOf_trackAll ha]
  simp [hs]
/-! ## Rendering -/

lemma Scene.plays_render (hfree : r.LoopFree) (hscope : Scope.Rel (same T K) scope scope)
    (howner : Owner.Rel (same T K) owner owner) :
    Plays T K (fun _ => Eq) (View.semantics beh (.render r scope owner)) := by
  intro τ hle hopen
  exact Behaviour.alike_semantics hopen (.render hfree (hscope.mono hle) (howner.mono hle)) trivial

/-- A rendering depends on nothing but the slots that it tracked. In every heap that shows the same
there it gives the same text or the same failure, and tracks the same slots. -/
theorem Routine.render_determined_by_tracked {K : Set Ref} {w w₁ : C.World}
    (hmakers : ∀ b ∈ T.makers, beh.Makes T b) (hscene : Scene T K w) {e : EffectId}
    (ha : w.active = some e) (hnew : w.registry.tracked e = ∅) {r : Routine} (hfree : r.LoopFree)
    {scope : Scope} (hscope : Scope.Rel (Twins.same T K) scope scope) {owner : Owner}
    (howner : Owner.Rel (Twins.same T K) owner owner) {n : Nat} {res : Except RenderError String}
    (hr : beh.quietly T (n + 1) (.render r scope owner) w = some (res, w₁)) {h' : Heap}
    (hext : w.heap.Extends h')
    (hsame : ∀ s ∈ w₁.registry.tracked e, w.heap.Holds s.container.ref → w.heap.Unchanged h' s) :
    ∃ w₁', (View.semantics beh).caller (n + 1) (.render r scope owner) { w with heap := h' } =
        some (res, w₁') ∧
      w₁'.registry.tracked e = Slot.moved w.heap h' '' w₁.registry.tracked e := by
  have hagain : Scene.Again T K (w₁.registry.tracked e) w { w with heap := h' } :=
    ⟨hext, le_rfl, hscene.state, fun p hp => hext.holds (hscene.slots p hp),
      fun s hs hmem => hsame s hs (hscene.heap.holds _ hmem)⟩
  obtain ⟨D₁, V₁, slots, slots', res', w₁', hr', heq, halong⟩ :=
    hscene.replay hmakers (Scene.plays_render hfree hscope howner) ha
      (Behaviour.quietly_succ hr).2 hagain
  cases heq subset_rfl
  refine ⟨w₁', hr', ?_⟩
  rw [halong.left.tracked ha hnew, halong.right.tracked ha hnew]
  have hslots : slots.map (Slot.moved w.heap h') = slots' := by
    rw [← List.forall₂_eq_eq_eq, List.forall₂_map_left_iff]
    exact halong.slots.imp fun _ _ hs => hs.eq_moved.symm
  ext s
  simp [← hslots]
/-! ## A leaflet -/

/-- An application without code of its own. -/
def Client.bare : Client where
  Body := Empty
  Task := Empty
  Answer := Unit
  State := Unit

def Behaviour.bare : Behaviour .bare where
  invoke b := nomatch b
  task t := nomatch t

def Terms.bare : Terms .bare where
  names b := nomatch b
  makers := ∅
  hooks := ∅
  catalog := {}

lemma Catalog.not_has_empty : ¬ Catalog.Has (C := B) {} d := by
  rintro (h | h | h) <;> cases h

namespace Leaflet

def routine : Routine :=
  ⟨[.foreach (.name "items") none "x" [.echo (.name "x"), .echo (.member (.name "loop") "last")]]⟩

/-- The data of the leaflet, with a word that it does not show, and other objects. -/
def heap (word : String) (others : List (Table Value)) : Heap where
  objects := (.ofList [("items", .list ⟨0⟩), ("word", .text word)] :: others).toArray
  lists := #[[.text "a", .text "b"], []]

def world (h : Heap) : World Client.bare.signature where
  heap := h
  active := some ⟨0⟩
  state := { client := () }

/-- The scope of the template, with variables around it. -/
def scope (locals : List (Table Value)) : Scope :=
  { data := ⟨0⟩, globals := .empty, locals }

def code (locals : List (Table Value)) : Code .bare :=
  .render routine (scope locals) (.live ⟨0⟩ .empty)

def known : Set Ref :=
  {.object ⟨0⟩, .list ⟨0⟩}

lemma scene (word : String) (others : List (Table Value)) :
    Scene Terms.bare known (world (heap word others)) where
  heap := by
    refine ⟨?_, ?_, ?_, ?_⟩
    · rintro a (rfl | rfl)
      · exact Nat.zero_lt_succ _
      · exact Nat.zero_lt_succ _
    · rintro o (h | h) <;> cases h
      rintro e (_ | ⟨_, _ | ⟨_, ⟨⟩⟩⟩)
      · exact .inr rfl
      · trivial
    · rintro l (h | h) <;> cases h
      rintro v (_ | ⟨_, _ | ⟨_, ⟨⟩⟩⟩) <;> trivial
    · rintro i (h | h) <;> cases h
  functions := by rintro f (h | h) <;> cases h
  state := by
    refine ⟨?_, ?_, ?_, ⟨rfl, rfl⟩, rfl, rfl, ?_⟩
    · rintro f f' ⟨h | h, -⟩ <;> cases h
    · rintro f f' ⟨h | h, -⟩ <;> cases h
    · rintro f f' ⟨h | h, -⟩ <;> cases h
    · exact ⟨fun h => absurd h Catalog.not_has_empty, fun h => absurd h Catalog.not_has_empty⟩
  registered := by
    refine ⟨⟨?_, ?_, ?_, ?_⟩, trivial, ?_, .nil, nofun⟩
    · exact fun h => absurd h Catalog.not_has_empty
    · exact fun h => absurd h Catalog.not_has_empty
    · exact fun h => absurd h Catalog.not_has_empty
    · exact fun h => absurd h Catalog.not_has_empty
    · exact fun h => absurd h Catalog.not_has_empty
  slots := nofun

lemma scope_rel : Scope.Rel (same Terms.bare known) (scope []) (scope []) where
  data := ⟨.inl rfl, rfl⟩
  globals := .nil
  locals := .nil
  loop _ := nofun

lemma loopFree : routine.LoopFree := rfl

lemma untracked (h : Heap) : (world h).registry.tracked ⟨0⟩ = ∅ :=
  Set.eq_empty_of_forall_notMem fun _ => nofun

lemma unchanged (word word' : String) (others others' : List (Table Value))
    (hs : s.container ≠ .object ⟨0⟩ → ∃ l, s.container = .list l)
    (hword : s ≠ .property ⟨0⟩ "word") : (heap word others).Unchanged (heap word' others') s := by
  obtain ⟨c, key⟩ := s
  by_cases hc : c = .object ⟨0⟩
  · subst hc
    cases key with
    | iteration => rfl
    | property name =>
      have hname : ("word" == name) = false := by
        refine beq_eq_false_iff_ne.mpr ?_
        rintro rfl
        exact hword rfl
      have hentries : ∀ word others, ((heap word others).fields ⟨0⟩).entries =
          [("items", .list ⟨0⟩), ("word", .text word)] := fun _ _ => rfl
      show List.filter _ _ = List.filter _ _
      rw [hentries, hentries]
      simp [List.filter_cons, hname]
  · obtain ⟨l, rfl⟩ := hs hc
    exact .of_eq nofun fun _ _ => rfl

theorem render_determined_by_tracked_leaflet :
    ∃ w₁ w₁', (View.semantics .bare).caller 1 (code []) (world (heap "old" [])) =
        some (.ok "afalsebtrue", w₁) ∧
      (View.semantics .bare).caller 1 (code []) (world (heap "new" [.empty, .empty])) =
        some (.ok "afalsebtrue", w₁') ∧
      w₁'.registry.tracked ⟨0⟩ =
        Slot.moved (heap "old" []) (heap "new" [.empty, .empty]) '' w₁.registry.tracked ⟨0⟩ := by
  have hrun : ((View.semantics .bare).caller 1 (code []) (world (heap "old" []))).map
      (fun r => (r.1, r.2.registry.subscribersOf (.property ⟨0⟩ "word"))) =
        some (.ok "afalsebtrue", []) := rfl
  obtain ⟨⟨res, w₁⟩, hr, heq⟩ := Option.map_eq_some_iff.mp hrun
  obtain ⟨rfl, hword⟩ := Prod.mk.inj heq
  have hquiet : Behaviour.bare.quietly Terms.bare 1 (code []) (world (heap "old" [])) =
      some (.ok "afalsebtrue", w₁) :=
    (Behaviour.quietly_of_allows (c := code []) trivial 0 _).trans hr
  have hsame : ∀ s ∈ w₁.registry.tracked ⟨0⟩, (heap "old" []).Holds s.container.ref →
      (heap "old" []).Unchanged (heap "new" [.empty, .empty]) s := by
    intro s hs hheld
    refine unchanged _ _ _ _ ?_ ?_
    · obtain ⟨c, key⟩ := s
      intro hc
      cases c with
      | object o =>
        refine absurd (congrArg (fun i => Container.object ⟨i⟩) ?_) hc
        exact Nat.lt_one_iff.mp hheld
      | list l => exact ⟨l, rfl⟩
    · rintro rfl
      have hs : ⟨0⟩ ∈ w₁.registry.subscribersOf (.property ⟨0⟩ "word") := hs
      rw [hword] at hs
      cases hs
  have hext : (heap "old" []).Extends (heap "new" [.empty, .empty]) :=
    ⟨by decide, by decide, by decide, nofun⟩
  obtain ⟨w₁', hr', htracked⟩ := Routine.render_determined_by_tracked (T := Terms.bare)
    (fun b => nomatch b) (scene "old" []) rfl (untracked _) loopFree scope_rel
    (.live ⟨.inl rfl, rfl⟩ .nil) hquiet hext hsame
  exact ⟨w₁, w₁', hr, hr', htracked⟩

def around : List (Table Value) :=
  [.ofList [("loop", .object ⟨1⟩)]]

/-- Loops look at the depth of a `loop` from outside without depending on it, so what they render
and track is not determined by what they tracked before. -/
theorem outer_loop_not_tracked :
    ∃ w₁ w₁', (View.semantics .bare).caller 1 (code around) (world (heap "old" [.empty])) =
        some (.ok "afalsebtrue", w₁) ∧
      (∀ s ∈ w₁.registry.tracked ⟨0⟩, (heap "old" [.empty]).Holds s.container.ref →
        (heap "old" [.empty]).Unchanged (heap "old" [.ofList [("depth", .list ⟨1⟩)]]) s) ∧
      (View.semantics .bare).caller 1 (code around)
        (world (heap "old" [.ofList [("depth", .list ⟨1⟩)]])) = some (.ok "afalsebtrue", w₁') ∧
      .length ⟨1⟩ ∈ w₁'.registry.tracked ⟨0⟩ ∧ .length ⟨1⟩ ∉ w₁.registry.tracked ⟨0⟩ := by
  have hrun : ((View.semantics .bare).caller 1 (code around) (world (heap "old" [.empty]))).map
      (fun r => (r.1, r.2.registry.subscribers.map Prod.fst)) =
        some (.ok "afalsebtrue", [.property ⟨0⟩ "items", .length ⟨0⟩, .item ⟨0⟩ 0, .item ⟨0⟩ 1,
          .property ⟨2⟩ "last", .property ⟨3⟩ "last"]) := rfl
  have hrun' : ((View.semantics .bare).caller 1 (code around)
      (world (heap "old" [.ofList [("depth", .list ⟨1⟩)]]))).map
        (fun r => (r.1, r.2.registry.subscribersOf (.length ⟨1⟩))) =
          some (.ok "afalsebtrue", [⟨0⟩]) := rfl
  obtain ⟨⟨res, w₁⟩, hr, heq⟩ := Option.map_eq_some_iff.mp hrun
  obtain ⟨⟨res', w₁'⟩, hr', heq'⟩ := Option.map_eq_some_iff.mp hrun'
  obtain ⟨rfl, hslots⟩ := Prod.mk.inj heq
  obtain ⟨rfl, hlength⟩ := Prod.mk.inj heq'
  have htracked : ∀ s ∈ w₁.registry.tracked ⟨0⟩, s ∈ w₁.registry.subscribers.map Prod.fst := by
    intro s hs
    obtain ⟨es, hes⟩ := Registry.mem_subscribers_of_tracked hs
    exact List.mem_map_of_mem hes
  rw [hslots] at htracked
  refine ⟨w₁, w₁', hr, ?_, hr', ?_, ?_⟩
  · intro s hs hheld
    have hmem := htracked s hs
    simp only [List.mem_cons, List.not_mem_nil, or_false] at hmem
    rcases hmem with rfl | rfl | rfl | rfl | rfl | rfl
    · exact unchanged _ _ _ _ (fun h => absurd rfl h) (by decide)
    · exact unchanged _ _ _ _ (fun _ => ⟨_, rfl⟩) (by decide)
    · exact unchanged _ _ _ _ (fun _ => ⟨_, rfl⟩) (by decide)
    · exact unchanged _ _ _ _ (fun _ => ⟨_, rfl⟩) (by decide)
    · exact absurd hheld (by decide : ¬ 2 < 2)
    · exact absurd hheld (by decide : ¬ 3 < 2)
  · show ⟨0⟩ ∈ w₁'.registry.subscribersOf (.length ⟨1⟩)
    rw [hlength]
    exact List.mem_cons_self
  · intro hs
    exact absurd (htracked _ hs) (by decide)

end Leaflet

end LiveMarkup
