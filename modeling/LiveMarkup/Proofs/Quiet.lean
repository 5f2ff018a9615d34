import LiveMarkup.Proofs.SideBySide

/-!
# Quiet code

Code that templates may run: routines, bodies that are pure, and factories that make data out of
nothing. Pure is what the application promises to keep to operations that twins perform, whatever
the names are. Running quiet code in one of two worlds on a stage, the other world follows, however
deep calls nest.
-/

namespace LiveMarkup

open World View Behaviour Set Option

variable {T : Terms C}

open Program

/-! ## What the application promises -/

/-- A body that only looks, builds and calls, and decides by nothing but what it is told. -/
def Behaviour.Pure (beh : Behaviour C) (T : Terms C) (b : C.Body) : Prop :=
  ∀ {τ : Twins T}, τ.Open → τ.Fixes b → ∀ {o o'}, Invocation.Rel τ o o' →
    Alike τ (ExceptRel τ.value) (beh.invoke b o) (beh.invoke b o')

/-- A body that makes data out of nothing: whatever the names are, and without calling anybody. -/
def Behaviour.Makes (beh : Behaviour C) (T : Terms C) (b : C.Body) : Prop :=
  ∀ {τ : Twins T}, ¬ τ.calls →
    Alike τ (ExceptRel τ.value) (beh.invoke b .factory) (beh.invoke b .factory)

/-- Code that templates may run. -/
def Behaviour.Allows (beh : Behaviour C) (T : Terms C) : Code C → Prop
  | .render _ _ _ => True
  | .invoke b .factory => b ∈ T.makers
  | .invoke b _ => beh.Pure T b
  | _ => False

open Classical in
/-- Runs code that templates may run, and no other. -/
noncomputable def Behaviour.quietly (beh : Behaviour C) (T : Terms C) : Nat → C.Caller
  | 0 => fun _ _ => none
  | n + 1 => fun c w =>
    if beh.Allows T c then (semantics beh c).run (beh.quietly T n) w else none

variable {beh : Behaviour C}

lemma Behaviour.quietly_of_allows (hc : beh.Allows T c) (n : Nat) (w : C.World) :
    beh.quietly T (n + 1) c w = (semantics beh c).run (beh.quietly T n) w :=
  if_pos hc

lemma Behaviour.quietly_succ (hr : beh.quietly T (n + 1) c w = some r) :
    beh.Allows T c ∧ (semantics beh c).run (beh.quietly T n) w = some r := by
  simp only [quietly] at hr
  split at hr
  · exact ⟨‹_›, hr⟩
  · cases hr

lemma Behaviour.quietly_le (n : Nat) : (beh.quietly T n).Le ((semantics beh).caller n) := by
  induction n with
  | zero => exact fun _ _ _ h => nomatch h
  | succ n ih =>
    intro c w r hr
    exact run_mono ih (quietly_succ hr).2

variable {τ : Twins T}

lemma Twins.Open.mono (hopen : τ.Open) (hle : τ.Le σ) (hcalls : σ.calls) : σ.Open where
  lawful := hopen.lawful
  calls := hcalls
  methods hd e he := (hopen.methods hd e he).mono hle
  services := hopen.services.imp fun _ _ => hle.value
  store hid := hle.rel (hopen.store hid)

lemma Behaviour.alike_semantics (hopen : τ.Open) (hc : Code.Rel τ c c') (hallows : beh.Allows T c) :
    Alike τ (Code.ReplyRel τ c c') (semantics beh c) (semantics beh c') := by
  cases hc with
  | @invoke b o o' hb ho =>
    have hpure : beh.Pure T b := by
      cases ho <;> exact hallows
    exact hpure hopen hb ho
  | render hfree hscope howner =>
    have hrun := Routine.alike_render (L := τ.likeness) (Bool.eq_false_iff.mp hfree)
      (hostOf_alike hopen howner) (Scope.rel_iff_alike.mp hscope)
    exact τ.likeness.imp hrun fun _ _ h => exceptRel_eq (Twins.outcome_iff.mp h)

/-! ## The second run follows -/

/-- What the first run has come to, the second run comes to as well. -/
def Follows (τ : Twins T) (B : Set Slot) (D : Set Ref) (w w' : C.World) {α α' : Type}
    (R : Set Ref → Set ObjectId → α → α' → Prop) (a : α) (w1 : C.World)
    (run : Option (α' × C.World)) : Prop :=
  ∃ D1 V1 slots slots' a' w1', run = some (a', w1') ∧ (∀ {D'}, D1 ⊆ D' → R D' V1 a a') ∧
    Along τ B D D1 V1 slots slots' w w' w1 w1'

/-- Runs that look at nothing but slots in `B`. -/
structure Looking (beh : Behaviour C) (T : Terms C) (B : Set Slot)
    (L : Nat → (α : Type) → View C α → C.World → Prop) : Prop where
  read : ∀ {n α q} {next : q.Answer → View C α} {w a slots}, L n α (.step (.read q) next) w →
    q.answer w.heap = some (a, slots) → ∀ s ∈ slots, s ∈ B
  next : ∀ {n α} {op : C.Op} {next : op.Reply → View C α} {w r w1},
    L n α (.step op next) w → op.perform (beh.quietly T n) w = some (r, w1) → L n α (next r) w1
  call : ∀ {n α} {c : Code C} {next : c.Reply → View C α} {w},
    L (n + 1) α (.step (.call c) next) w → beh.Allows T c →
    L n c.Reply (semantics beh c) w

lemma Looking.everywhere : Looking beh T univ fun _ _ _ _ => True :=
  ⟨fun _ _ _ _ => trivial, fun _ _ => trivial, fun _ _ => trivial⟩

/-- Programs that are twins stay side by side, with calls that nest less than `n` deep. -/
def StaysAlong (beh : Behaviour C) (T : Terms C) (n : Nat) : Prop :=
  ∀ {τ : Twins T} {B : Set Slot} {L : Nat → (α : Type) → View C α → C.World → Prop}
    {D : Set Ref} {V : Set ObjectId} {w w' : C.World} {α α' : Type} {p : View C α}
    {p' : View C α'} {R : Set Ref → Set ObjectId → α → α' → Prop} {a : α}
    {w1 : C.World}, Looking beh T B L → Stage τ B D V w w' →
    (τ.calls → (τ.only D).Open) → (∀ {D'}, D ⊆ D' → Twin (τ.only D') (R D') V p p') →
    L n α p w → p.run (beh.quietly T n) w = some (a, w1) →
    Follows τ B D w w' R a w1 (p'.run ((semantics beh).caller n) w')

/-! ## Factories -/

def World.Lacks (w : C.World) : Ref → Prop
  | .function f => w.state.functions.size ≤ f.index
  | .store _ => False
  | a => ¬ w.heap.Holds a

/-- What corresponds, as far as it is still to be made. -/
def Twins.after (τ : Twins T) (w : C.World) : Twins T where
  rel a b := τ.rel a b ∧ w.Lacks a
  unique h h' := τ.unique h.1 h'.1
  own := {a | a ∈ τ.own ∧ ¬ w.heap.Holds a}
  calls := False

namespace Stage

lemma index_object (h : Stage τ B D V w w') (ho : τ.rel (.object o) (.object o'))
    (hlacks : ¬ w.heap.Holds (.object o)) : ¬ w'.heap.Holds (.object o') := by
  obtain ⟨k, hk⟩ := Nat.exists_eq_add_of_le (Nat.le_of_not_lt hlacks)
  have hrel := h.objects k
  rw [← hk] at hrel
  cases (τ.unique hrel ho).mp rfl
  simp [Heap.Holds]

lemma index_function (h : Stage τ B D V w w') (hf : τ.rel (.function f) (.function f')) (k : Nat) :
    f.index = w.state.functions.size + k ↔ f'.index = w'.state.functions.size + k := by
  have hu := τ.unique hf (h.functions k)
  obtain ⟨i⟩ := f
  obtain ⟨i'⟩ := f'
  simpa using hu

lemma after (h : Stage τ B D V w w') :
    Stage (τ.after w) univ ∅ ∅ { w with active := none } { w' with active := none } where
  held ha := absurd ha (notMem_empty _)
  shown _ hs := absurd hs.container.1 (notMem_empty _)
  hostObjects hi := absurd hi.1 (notMem_empty _)
  objects k := ⟨h.objects k, by simp [Lacks, Heap.Holds]⟩
  lists k := ⟨h.lists k, by simp [Lacks, Heap.Holds]⟩
  hosts k := ⟨h.hosts k, by simp [Lacks, Heap.Holds]⟩
  functions k := ⟨h.functions k, by simp [Lacks]⟩
  made hrel hno := ⟨h.made hrel.1 hno, hno⟩
  room := h.room
  state := by
    intro D' _
    have hstate := h.state subset_rfl
    refine ⟨?_, ?_, ?_, hstate.catalog, hstate.settings, hstate.pushed, hstate.compiled⟩
    · rintro f f' ⟨-, hrel, hlacks⟩
      obtain ⟨k, hk⟩ := Nat.exists_eq_add_of_le hlacks
      have hk' := (h.index_function hrel k).mp hk
      have hlacks' : w'.state.functions.size ≤ f'.index := by omega
      rw [Array.getElem?_eq_none hlacks, Array.getElem?_eq_none hlacks']
      exact .none
    · rintro f f' ⟨-, hrel, -⟩ k
      exact h.index_function hrel k
    · rintro id id' ⟨-, -, hlacks⟩
      exact hlacks.elim
  own := nofun
  left := ⟨h.left.slots, nofun⟩
  right := by
    refine ⟨h.right.slots, ?_⟩
    rintro o' ⟨o, ho, -⟩
    exact absurd ho (notMem_empty o)

end Stage

def World.met (w : C.World) (D D1 : Set Ref) : Set Ref :=
  D ∪ {a | a ∈ D1 ∧ w.Lacks a}

lemma Twins.after_le (τ : Twins T) (w : C.World) (hD' : w.met D D1 ⊆ D') :
    ((τ.after w).only D1).Le (τ.only D') :=
  ⟨fun hr => ⟨hD' (.inr ⟨hr.1, hr.2.2⟩), hr.2.1⟩, fun _ ha => ha.1⟩

namespace Stage

section

variable (h : Stage τ B D V w w')
  (hrun : Along (τ.after w) univ ∅ D1 V1 slots slots' { w with active := none } { w' with active := none } w1 w1')
include h hrun

lemma state_afterwards (hD' : w.met D D1 ⊆ D') : ViewState.Rel (τ.only D') w1.state w1'.state := by
  have hold := h.state (subset_union_left.trans hD')
  have hnew := hrun.stage.state (subset_union_left : D1 ⊆ D1 ∪ D')
  refine ⟨?_, ?_, ?_, hnew.catalog, hnew.settings, hnew.pushed, hnew.compiled⟩
  · rintro f f' hf
    by_cases hlt : f.index < w.state.functions.size
    · have hlt' : f'.index < w'.state.functions.size := by
        by_contra hge
        obtain ⟨k, hk⟩ := Nat.exists_eq_add_of_le (Nat.le_of_not_lt hge)
        have hk' := (h.index_function hf.2 k).mpr hk
        omega
      rw [hrun.left.state.functions _ hlt, hrun.right.state.functions _ hlt']
      exact hold.functions hf
    · have hlacks : w.Lacks (.function f) := Nat.le_of_not_lt hlt
      have hle : ((τ.after w).only (D1 ∪ D')).Le (τ.only D') := by
        refine ⟨?_, fun _ ha => ha.1⟩
        rintro a b ⟨ha | ha, hr⟩
        · exact ⟨hD' (.inr ⟨ha, hr.2⟩), hr.1⟩
        · exact ⟨ha, hr.1⟩
      have hrel : ((τ.after w).only (D1 ∪ D')).rel (.function f) (.function f') :=
        ⟨.inr hf.1, hf.2, hlacks⟩
      exact optionRel_imp (hnew.functions hrel) fun _ _ hc => hc.mono hle
  · rintro f f' hf k
    have hk := (τ.unique hf.2 (hrun.stage.functions k).1)
    obtain ⟨i⟩ := f
    obtain ⟨i'⟩ := f'
    simpa using hk
  · intro id id' hid
    rw [hrun.left.state.stores, hrun.right.state.stores]
    exact hold.stores hid

/-- After a factory has run, both worlds are on stage again, and what it returned has not been
looked at. -/
lemma afterwards (hU : ∀ o ∈ U, ∃ o', ((τ.after w).only D1).rel (.object o) (.object o')) :
    Along τ B D (w.met D D1) U [] [] w w' { w1 with active := w.active }
      { w1' with active := w'.active } := by
  have hD : D ⊆ w.met D D1 := subset_union_left
  have hle := τ.after_le w (Subset.refl (w.met D D1))
  -- What was there before is as it was.
  have hsame : ∀ {a a'}, a ∈ D → τ.rel a a' → a ∉ (τ.after w).own ∧ a' ∉ (τ.after w).own' := by
    intro a a' ha hrel
    obtain ⟨hl, -⟩ := h.held ha hrel
    refine ⟨fun hown => hown.2 hl, ?_⟩
    rintro ⟨b, hb, hrel', -⟩
    obtain rfl := (τ.unique hrel hrel').mpr rfl
    exact hb.2 hl
  have hregistry : w1.registry = w.registry := by
    rw [hrun.left.registry, trackAll_of_inactive rfl]
  have hregistry' : w1'.registry = w'.registry := by
    rw [hrun.right.registry, trackAll_of_inactive rfl]
  refine ⟨hD, ?_, ?_, ?_, .nil⟩
  · refine ⟨?_, ?_, ?_, fun k => (hrun.stage.objects k).1, fun k => (hrun.stage.lists k).1,
      fun k => (hrun.stage.hosts k).1, fun k => (hrun.stage.functions k).1, ?_, hrun.stage.room,
      fun hD' => h.state_afterwards hrun hD', ?_, ?_, ?_⟩
    · rintro a a' (ha | ⟨ha, hlacks⟩) hrel
      · obtain ⟨hl, hr⟩ := h.held ha hrel
        exact ⟨hrun.left.heap.holds hl, hrun.right.heap.holds hr⟩
      · exact hrun.stage.held ha ⟨hrel, hlacks⟩
    · rintro s s' hB ⟨⟨ha | ⟨ha, hlacks⟩, hrel⟩, hkey⟩
      · obtain ⟨hl, hr⟩ := hsame ha hrel
        refine ((h.shown hB ⟨⟨ha, hrel⟩, hkey⟩).mono (τ.only_le hD).rel).congr ?_ ?_ ?_ ?_
        · intro o ho
          rw [ho] at hl
          exact hrun.left.fields o hl
        · intro l hlist
          rw [hlist] at hl
          exact hrun.left.items l hl
        · intro o ho
          rw [ho] at hr
          exact hrun.right.fields o hr
        · intro l hlist
          rw [hlist] at hr
          exact hrun.right.items l hr
      · exact (hrun.stage.shown (.inl trivial) ⟨⟨ha, hrel, hlacks⟩, hkey⟩).mono hle.rel
    · rintro i i' ⟨ha | ⟨ha, hlacks⟩, hrel⟩
      · obtain ⟨hl, hr⟩ := h.held ha hrel
        have hx := hrun.left.heap.hostObject i hl
        have hx' := hrun.right.heap.hostObject i' hr
        rw [hx, hx']
        exact (h.hostObjects ⟨ha, hrel⟩).mono (τ.only_le hD).rel
      · exact (hrun.stage.hostObjects ⟨ha, hrel, hlacks⟩).mono hle.rel
    · exact fun hrel hno => h.made hrel fun hh => hno (hrun.left.heap.holds hh)
    · intro o ho
      obtain ⟨o', -, hrel, hlacks⟩ := hU o ho
      exact h.made hrel hlacks
    · refine ⟨hrun.stage.left.slots, ?_⟩
      intro o ho key
      obtain ⟨o', -, hrel, hlacks⟩ := hU o ho
      rw [hregistry]
      exact h.left.notHeld hlacks
    · refine ⟨hrun.stage.right.slots, ?_⟩
      rintro o' ⟨o, ho, hrel'⟩ key
      obtain ⟨-, -, hrel, hlacks⟩ := hU o ho
      rw [hregistry']
      exact h.right.notHeld (h.index_object hrel' hlacks)
  · exact ⟨hrun.left.heap, fun o ho => hrun.left.fields o fun hown => ho hown.1,
      fun l hl => hrun.left.items l fun hown => hl hown.1, hregistry, hrun.left.effects, rfl,
      hrun.left.maxDepth, hrun.left.state⟩
  · refine ⟨hrun.right.heap, fun o ho => hrun.right.fields o ?_,
      fun l hl => hrun.right.items l ?_, hregistry', hrun.right.effects, rfl,
      hrun.right.maxDepth, hrun.right.state⟩
    · rintro ⟨a, ha, hrel, -⟩
      exact ho ⟨a, ha.1, hrel⟩
    · rintro ⟨a, ha, hrel, -⟩
      exact hl ⟨a, ha.1, hrel⟩

end

end Stage

/-! ## Runs -/

namespace Stage

variable {w : C.World}

lemma forget (h : Stage τ B D V w w') : Stage τ B D ∅ w w' := by
  refine h.congr rfl rfl rfl rfl nofun ⟨h.left.slots, nofun⟩ ⟨h.right.slots, ?_⟩
  rintro o' ⟨o, ho, -⟩
  exact absurd ho (notMem_empty o)

lemma call (hn : StaysAlong beh T n) {L : Nat → (α : Type) → View C α → C.World → Prop}
    (hL : Looking beh T B L) (h : Stage τ B D V w w') (hopen : (τ.only D).Open) {c' : Code C}
    (hc : ∀ {D'}, D ⊆ D' → Code.Rel (τ.only D') c c') (hlook : L n c.Reply (semantics beh c) w)
    {r : c.Reply} (hr : beh.quietly T (n + 1) c w = some (r, w1)) :
    Follows τ B D w w' (fun D' V' r r' => Code.ReplyRel (τ.only D') c c' r r' ∧ V' = ∅) r w1
      ((semantics beh).caller (n + 1) c' w') := by
  obtain ⟨hallows, hr⟩ := quietly_succ hr
  obtain ⟨D1, V1, slots, slots', r', w1', hr', hreply, halong⟩ :=
    hn (R := fun D' _ => Code.ReplyRel (τ.only D') c c') hL h (fun _ => hopen)
      (fun hD' => alike_semantics (hopen.mono (τ.only_le hD') hopen.calls) (hc hD') hallows V)
      hlook hr
  exact ⟨D1, ∅, slots, slots', r', w1', hr', fun hD' => ⟨hreply hD', rfl⟩,
    ⟨halong.grows, halong.stage.forget, halong.left, halong.right, halong.slots⟩⟩

lemma factory (hn : StaysAlong beh T n) (hmakers : ∀ b ∈ T.makers, beh.Makes T b)
    (h : Stage τ B D V w w')
    (hr : runWithin (beh.quietly T (n + 1)) none (.invoke b .factory) w = some (r, w1)) :
    Follows τ B D w w'
      (fun D' V' r r' => ExceptRel (τ.only D').value r r' ∧ V' = {o | r = .ok (.object o)}) r w1
      (runWithin ((semantics beh).caller (n + 1)) none (.invoke b .factory) w') := by
  rw [runWithin] at hr
  cases hq : beh.quietly T (n + 1) (.invoke b .factory) { w with active := none } with
  | none => simp [hq] at hr
  | some q =>
    obtain ⟨r, w1⟩ := q
    rw [hq] at hr
    obtain ⟨rfl, rfl⟩ := Prod.mk.inj (some.inj hr)
    obtain ⟨hallows, hq⟩ := quietly_succ hq
    have hcalls : ¬ (τ.after w).calls := fun hcalls => hcalls
    obtain ⟨D1, V1, slots, slots', r', w1', hr', hreply, halong⟩ :=
      hn (R := fun D' _ => ExceptRel ((τ.after w).only D').value) .everywhere h.after
        (fun hc => absurd hc hcalls)
        (fun {D'} _ => hmakers b hallows (τ := (τ.after w).only D') hcalls ∅) trivial hq
    have hvalue := hreply (Subset.refl D1)
    refine ⟨w.met D D1, _, [], [], r', { w1' with active := w'.active }, ?_,
      fun hD' => ⟨?_, rfl⟩, h.afterwards halong ?_⟩
    · rw [runWithin, Semantics.caller_succ, semantics, hr']
    · have hle := τ.after_le w hD'
      cases hvalue with
      | ok hv => exact .ok (hle.value hv)
      | error e => exact .error e
    · rintro o rfl
      cases hvalue with
      | ok hv =>
        cases hv with
        | object hrel => exact ⟨_, hrel⟩

lemma perform (hn : ∀ m < n, StaysAlong beh T m) (hmakers : ∀ b ∈ T.makers, beh.Makes T b)
    (hL : Looking beh T B L) (h : Stage τ B D V w w') (hopen : τ.calls → (τ.only D).Open)
    (hop : ∀ {D'}, D ⊆ D' → op.Twin (τ.only D') V op') (next : op.Reply → View C α)
    (hlook : L n α (.step op next) w) (hr : op.perform (beh.quietly T n) w = some (r, w1)) :
    Follows τ B D w w' (fun D' V' r r' => op.TwinReply (τ.only D') V op' r r' V') r w1
      (op'.perform ((semantics beh).caller n) w') := by
  have hop0 := hop subset_rfl
  cases hop0 with
  | @read q q' hq =>
    obtain ⟨⟨a, slots⟩, ha, ⟨⟩⟩ := map_eq_some_iff.mp hr
    obtain ⟨a', slots', ha', haa, halong⟩ := h.read hq ha fun s hs => .inl (hL.read hlook ha s hs)
    refine ⟨D, ∅, slots, slots', a', _, ?_, fun hD' => ⟨haa.mono (τ.only_le hD').rel hq, rfl⟩,
      halong⟩
    rw [Op.perform, ha']
    rfl
  | @peek o o' ho hown name =>
    rw [Op.perform] at hr
    obtain ⟨⟨a, slots⟩, ha, ⟨⟩⟩ := map_eq_some_iff.mp hr
    have hq : (Query.property o name).Rel (τ.only D).toNaming (.property o' name) :=
      .property ho name
    have hslots : ∀ s ∈ slots, s ∈ B ∨ s.container.ref ∈ τ.own := by
      cases ha
      rintro s (_ | ⟨_, ⟨⟩⟩)
      exact .inr hown
    obtain ⟨a', slots', ha', haa, -⟩ := Query.answer_rel h.agree hq ha hslots
    refine ⟨D, V, [], [], a', w', ?_, fun hD' => ⟨haa.mono (τ.only_le hD').rel hq, rfl⟩,
      ⟨subset_rfl, h, .refl w, .refl w', .nil⟩⟩
    rw [Op.perform, ha']
    rfl
  | @write o o' v v' hV ho name hv =>
    rw [perform_set h.left hV] at hr
    cases hr
    exact ⟨D, V, [], [], (), _, perform_set h.right ⟨o, hV, ho.2⟩ name v', fun _ => rfl,
      h.write hV ho name hv⟩
  | newObject hf =>
    cases hr
    refine ⟨_, _, [], [], _, _, rfl, fun hD' => ?_, h.newObject hf⟩
    exact ⟨⟨hD' (.inl rfl), h.objects 0⟩, h.made (h.objects 0) (Nat.lt_irrefl _), rfl⟩
  | newList hi =>
    cases hr
    exact ⟨_, _, [], [], _, _, rfl, fun hD' => ⟨⟨hD' (.inl rfl), h.lists 0⟩, rfl⟩, h.newList hi⟩
  | newHost hx =>
    cases hr
    exact ⟨_, _, [], [], _, _, rfl, fun hD' => ⟨⟨hD' (.inl rfl), h.hosts 0⟩, rfl⟩, h.newHost hx⟩
  | call hcalls _ =>
    cases n with
    | zero => cases hr
    | succ n =>
      have hallows := (quietly_succ hr).1
      refine h.call (hn n (Nat.lt_succ_self n)) hL (hopen hcalls) (fun hD' => ?_)
        (hL.call hlook hallows) hr
      cases hop hD' with
      | call _ hc => exact hc
  | factory _ _ =>
    cases n with
    | zero => cases hr
    | succ n => exact h.factory (hn n (Nat.lt_succ_self n)) hmakers hr
  | log lines lines' =>
    cases hr
    refine ⟨D, V, [], [], (), w'.write lines', rfl, fun _ => rfl, ⟨subset_rfl, ?_, ?_, ?_, .nil⟩⟩
    · exact h.congr rfl rfl rfl rfl h.own ⟨h.left.slots, h.left.objects⟩
        ⟨h.right.slots, h.right.objects⟩
    · exact { Built.refl (Q := τ.own) w with }
    · exact { Built.refl (Q := τ.own') w' with }
  | get =>
    cases hr
    exact ⟨D, V, [], [], _, _, rfl, fun hD' => ⟨h.state hD', rfl⟩,
      ⟨subset_rfl, h, .refl w, .refl w', .nil⟩⟩
  | @modify f f' _ =>
    cases hr
    have hf : ∀ {D'}, D ⊆ D' → ∀ s s', ViewState.Rel (τ.only D') s s' →
        ViewState.Change (τ.only D') s s' (f s) (f' s') := by
      intro D' hD'
      cases hop hD' with
      | modify hf => exact hf
    refine ⟨D ∪ addedFunctions w.state (f w.state), V, [], [], _, _, rfl, fun hD' => ?_,
      h.modify hf⟩
    exact ⟨h.state (subset_union_left.trans hD'),
      fun k hk => ⟨hD' (.inr ⟨k, hk, rfl⟩), h.functions k⟩, rfl⟩

end Stage

/-- Whatever quiet code does in one of two worlds on a stage, it does in the other. -/
lemma staysAlong (hmakers : ∀ b ∈ T.makers, beh.Makes T b) (n : Nat) : StaysAlong beh T n := by
  induction n using Nat.strong_induction_on with
  | _ n ih =>
    intro τ B L D V w w' α α' p p' R a w1 hL h hopen htwin hlook hr
    induction p generalizing p' D V w w' with
    | done a =>
      cases htwin subset_rfl with
      | done _ =>
        cases hr
        refine ⟨D, V, [], [], _, w', rfl, fun hD' => ?_, ⟨subset_rfl, h, .refl _, .refl w', .nil⟩⟩
        cases htwin hD' with
        | done hR => exact hR
    | step op next ihp =>
      cases htwin subset_rfl with
      | @step _ _ op' _ next' _ _ =>
        obtain ⟨r, w2, hop, hrest⟩ := of_run_step hr
        have hops : ∀ {D'}, D ⊆ D' → op.Twin (τ.only D') V op' := by
          intro D' hD'
          cases htwin hD' with
          | step hop _ => exact hop
        obtain ⟨D2, V2, slots2, slots2', r', w2', hr', hreply, halong⟩ :=
          h.perform ih hmakers hL hopen hops next hlook hop
        have htwin2 : ∀ {D'}, D2 ⊆ D' → Twin (τ.only D') (R D') V2 (next r) (next' r') := by
          intro D' hD'
          cases htwin (halong.grows.trans hD') with
          | step _ rest => exact rest r r' V2 (hreply hD')
        obtain ⟨D1, V1, slots1, slots1', a', w1', hr1, hR, halong1⟩ :=
          ihp r halong.stage (fun hc => (hopen hc).mono (τ.only_le halong.grows) hc) htwin2
            (hL.next hlook hop) hrest
        refine ⟨D1, V1, _, _, a', w1', ?_, hR, halong.trans halong1⟩
        rw [run_step, hr']
        exact hr1

/-! ## Looking at one run alone -/

/-- A program that can be run side by side with itself. -/
def Poised (T : Terms C) (own : Set Ref) {α : Type} (p : View C α) (w : C.World) : Prop :=
  ∃ (τ : Twins T) (D : Set Ref) (V : Set ObjectId), τ.own = own ∧ Stage τ univ D V w w ∧
    (τ.calls → (τ.only D).Open) ∧
    ∀ {D'}, D ⊆ D' → Twin (τ.only D') (fun _ _ _ => True) V p p

namespace Poised

/-- Quiet runs do nothing but look and build, and leave behind what is in order. -/
lemma run (hmakers : ∀ b ∈ T.makers, beh.Makes T b) (h : Poised T own p w)
    (hr : p.run (beh.quietly T n) w = some (a, w1)) : ∃ slots, Built T own slots w w1 ∧
      (∀ q ∈ w1.registry.subscribers, w1.heap.Holds q.1.container.ref) ∧ T.Compiled w1.state := by
  obtain ⟨τ, D, V, rfl, hstage, hopen, htwin⟩ := h
  obtain ⟨D1, V1, slots, slots', a', w1', hr', -, halong⟩ :=
    staysAlong hmakers n .everywhere hstage hopen (R := fun _ _ _ _ => True) htwin trivial hr
  exact ⟨slots, halong.left, halong.stage.left.slots, (halong.stage.state subset_rfl).compiled.1⟩

lemma next (hmakers : ∀ b ∈ T.makers, beh.Makes T b) {op : C.Op}
    {next : op.Reply → View C α} (h : Poised T own (.step op next) w) {r : op.Reply}
    (hr : op.perform (beh.quietly T n) w = some (r, w1)) :
    Poised T own (next r) w1 ∧ ∃ slots, Built T own slots w w1 := by
  obtain ⟨τ, D, V, rfl, hstage, hopen, htwin⟩ := h
  have hops : ∀ {D'}, D ⊆ D' → op.Twin (τ.only D') V op := by
    intro D' hD'
    cases htwin hD' with
    | step hop _ => exact hop
  obtain ⟨D1, V1, slots, slots', r', w1', hr', hreply, halong⟩ :=
    hstage.perform (fun m _ => staysAlong hmakers m) hmakers .everywhere hopen hops next trivial hr
  -- The second run is the first.
  rw [Op.perform_mono (beh.quietly_le n) op hr] at hr'
  cases hr'
  refine ⟨⟨τ, D1, V1, rfl, halong.stage,
    fun hc => (hopen hc).mono (τ.only_le halong.grows) hc, ?_⟩, slots, halong.left⟩
  intro D' hD'
  cases htwin (halong.grows.trans hD') with
  | step _ rest => exact rest r r V1 (hreply hD')

lemma call {c : Code C} {next : c.Reply → View C α} (h : Poised T own (.step (.call c) next) w)
    (hallows : beh.Allows T c) : Poised T own (semantics beh c) w := by
  obtain ⟨τ, D, V, rfl, hstage, hopen, htwin⟩ := h
  refine ⟨τ, D, V, rfl, hstage, hopen, ?_⟩
  intro D' hD'
  cases htwin hD' with
  | step hop _ =>
    cases hop with
    | call hcalls hc =>
      have halike := alike_semantics ((hopen hcalls).mono (τ.only_le hD') hcalls) hc hallows
      exact (Twins.likeness _).imp halike (fun _ _ _ => trivial) V

end Poised

/-- Runs of an effect look at nothing but what the effect depends on in the end. -/
lemma Looking.tracked (hmakers : ∀ b ∈ T.makers, beh.Makes T b) (own : Set Ref) (e : EffectId)
    (B : Set Slot) : Looking beh T B fun n _ p w =>
      Poised T own p w ∧ w.active = some e ∧ ∃ a w1, p.run (beh.quietly T n) w = some (a, w1) ∧
        ∀ s, e ∈ w1.registry.subscribersOf s → s ∈ B := by
  refine ⟨?_, ?_, ?_⟩
  · rintro n α q next w a slots ⟨hp, ha, b, w1, hr, hB⟩ hanswer s hs
    obtain ⟨r, w2, hop, hrest⟩ := of_run_step hr
    obtain ⟨more, hbuilt, -⟩ := (hp.next hmakers hop).1.run hmakers hrest
    refine hB s (hbuilt.subscribers ?_)
    rw [Op.perform, hanswer] at hop
    cases hop
    exact (mem_subscribersOf_trackAll ha slots).mpr (.inr ⟨rfl, hs⟩)
  · rintro n α op next w r w2 ⟨hp, ha, b, w1, hr, hB⟩ hop
    rw [run_step, hop] at hr
    obtain ⟨hnext, slots, hbuilt⟩ := hp.next hmakers hop
    exact ⟨hnext, hbuilt.active.trans ha, b, w1, hr, hB⟩
  · rintro n α c next w ⟨hp, ha, b, w1, hr, hB⟩ hallows
    obtain ⟨r, w2, hop, hrest⟩ := of_run_step hr
    obtain ⟨more, hbuilt, -⟩ := (hp.next hmakers hop).1.run hmakers hrest
    exact ⟨hp.call hallows, ha, r, w2, (quietly_succ hop).2,
      fun s hs => hB s (hbuilt.subscribers hs)⟩

end LiveMarkup
