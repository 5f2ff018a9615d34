import LiveMarkup.Proofs.Changes
import LiveMarkup.Proofs.Observing

/-!
# Whom a write tells

A write to a property goes through two rounds: first the effects that depend on the property, and
then, if the object did not have it before, those that depend on which properties there are. The
lists change while the rounds go on, and the second round goes by what the first one left.

`Semantics.Tours` follows the machine from one moment to another and says which effects begin to run
on the way. As long as the bodies of all effects only look, a round runs those who were listed when
it began and nobody else, each of them once.
-/

namespace LiveMarkup

open World List Option
open Moment (code turns)

variable {sem : Semantics S}

/-! ## Who begins to run -/

/-- The steps after one moment lead to another, and on the way these effects begin to run, in this
order, and no others. -/
inductive Semantics.Tours (sem : Semantics S) : Moment S → List EffectId → Moment S → Prop
  | refl (m : Moment S) : Tours sem m [] m
  | step {m m' m'' : Moment S} {es : List EffectId} (first : m.next sem = some m')
      (rest : Tours sem m' es m'') : Tours sem m (m.begins ++ es) m''

namespace Semantics.Tours

lemma trans (h : sem.Tours m es m') (h' : sem.Tours m' es' m'') : sem.Tours m (es ++ es') m'' := by
  induction h with
  | refl => exact h'
  | step first _ ih =>
    rw [append_assoc]
    exact .step first (ih h')

lemma head (first : m.next sem = some m') (hquiet : m.begins = []) (rest : sem.Tours m' es m'') :
    sem.Tours m es m'' := by
  have hstep := step first rest
  rwa [hquiet] at hstep

end Semantics.Tours

variable {p : Program S α} {m : Moment S}

lemma Program.Observes.tours (hp : p.Observes sem asks False)
    (h : p.run (sem.caller bound) w = some (a, w')) (k : Pending S α) :
    sem.Tours (.code p k w) [] (.code (.done a) k w') := by
  have caller : ∀ {c : S.Code}, (∀ {bound w w' r}, (sem c).run (sem.caller bound) w = some (r, w') →
      ∀ k, sem.Tours (.code (sem c) k w) [] (.code (.done r) k w')) →
      ∀ {bound w w' r}, sem.caller bound c w = some (r, w') →
        ∀ k, sem.Tours (.code (sem c) k w) [] (.code (.done r) k w') := by
    intro c ih bound w w' r h k
    cases bound with
    | zero => cases h
    | succ n => exact ih h k
  induction hp generalizing bound w w' with
  | done b =>
    cases h
    exact .refl _
  | @look _ op next hop _ ih =>
    obtain ⟨r, w1, hr, hrest⟩ := of_run_step h
    have hinert : op.IsInert := by
      cases op <;> trivial
    refine .head ?_ rfl (ih r hrest k)
    show op.start sem next k w = _
    rw [Op.start_of_inert hinert, hinert.perform_eq _ (sem.caller bound), hr]
    rfl
  | call _ _ ihc ih =>
    obtain ⟨r, w1, hr, hrest⟩ := of_run_step h
    exact .head rfl rfl ((caller ihc hr _).trans (.head rfl rfl (ih r hrest k)))
  | untracked _ _ ihc ih =>
    obtain ⟨r, w1, hr, hrest⟩ := of_run_step h
    rw [Op.perform, runWithin] at hr
    split at hr
    · cases hr
    · rename_i r1 w2 hc
      cases hr
      exact .head rfl rfl ((caller ihc hc _).trans (.head rfl rfl (.head rfl rfl (ih r hrest k))))
  | spawn hno => exact hno.elim

/-! ## Worlds in which all effects only look -/

def Heap.Answers (asks : Query → Prop) (h : Heap) : Prop :=
  ∀ q, asks q → ∃ a, q.answer h = some a

namespace World

/-- No effect is running, and those that there are only look. -/
structure AtRest (sem : Semantics S) (asks : Query → Prop) (w : World S) : Prop where
  consistent : w.registry.Consistent
  idle : ∀ e, w.effectDepth e < w.maxDepth
  bodies : ∀ e c, w.effectBody e = some c → (sem c).Observes sem asks False

/-- An effect depends on one slot, and whenever its body runs it reads that slot and no other. -/
def Watches (sem : Semantics S) (w : World S) (e : EffectId) (s : Slot) : Prop :=
  w.registry.dependenciesOf e = [s] ∧ ∃ c, w.effectBody e = some c ∧
    ∀ bound v r, sem.caller bound c v = some r → (sem.ownReads bound c v).eraseDups = [s]

/-- Nothing has happened but that effects have looked. -/
structure Stays (sem : Semantics S) (w w' : World S) : Prop extends w.Steady False w' where
  watches : ∀ {e s}, w.Watches sem e s → w'.Watches sem e s

variable {w : World S}

lemma Stays.refl (w : World S) : w.Stays sem w := ⟨(Observed.refl w).toSteady, id⟩

lemma Stays.trans (h : w.Stays sem w1) (h' : w1.Stays sem w') : w.Stays sem w' :=
  ⟨h.toSteady.trans h'.toSteady, fun hw => h'.watches (h.watches hw)⟩

lemma Stays.isLive (h : w.Stays sem w') (e : EffectId) : w'.isLive e = w.isLive e := by
  rw [World.isLive, h.effectBody id]
  rfl

lemma AtRest.stays (hw : w.AtRest sem asks) (h : w.Stays sem w') : w'.AtRest sem asks where
  consistent := h.consistent hw.consistent
  idle e := by
    rw [h.depth, h.maxDepth]
    exact hw.idle e
  bodies e c hb := hw.bodies e c ((h.effectBody id e).symm.trans hb)

lemma AtRest.withHeap (hw : w.AtRest sem asks) (h : Heap) :
    ({ w with heap := h } : World S).AtRest sem asks :=
  { hw with }

lemma Stays.answers (h : w.Stays sem w') (hq : w.heap.Answers asks) : w'.heap.Answers asks := by
  rw [(h.kept id).1]
  exact hq

lemma AtRest.turn (hw : w.AtRest sem asks) (hq : w.heap.Answers asks) (e : EffectId)
    (es : List EffectId) (slots : List Slot) (k : Pending S Unit) :
    ∃ w', sem.Tours (.turns (e :: es) slots k w) ([e].filter w.isLive) (.turns es slots k w') ∧
      w.Stays sem w' := by
  cases hb : w.effectBody e with
  | none =>
    have hdead : w.isLive e = false := by
      rw [isLive, hb]
      rfl
    refine ⟨w, ?_, .refl w⟩
    rw [filter_singleton, hdead]
    refine .head ?_ (if_neg (by simp [hdead])) (.refl _)
    simp only [Moment.next, hb]
  | some c =>
    have hlive : w.isLive e = true := by
      rw [isLive, hb]
      rfl
    have hc := hw.bodies e c hb
    obtain ⟨bound, r, w1, hrun⟩ := hc.exists_run (w := w.enter e) fun q hasks h hh => by
      rw [hh id, heap_enter]
      exact hq q hasks
    have hcall : sem.caller (bound + 1) c (w.enter e) = some (r, w1) := hrun
    have hobs := hc.looksOn hcall
    refine ⟨w1.leave e w.active, ?_, steady_leave hb hobs, ?_⟩
    · rw [filter_singleton, hlive]
      have hnext : (turns (e :: es) slots k w).next sem = _ := Moment.next_turn hb (hw.idle e)
      have hbegins : (turns (e :: es) slots k w).begins = [e] := if_pos ⟨hlive, hw.idle e⟩
      have hstep := Semantics.Tours.step hnext
        ((hc.tours hrun (.leave e w.active es slots k)).trans (.head rfl rfl (.refl _)))
      rwa [hbegins] at hstep
    · rintro e' s ⟨hdeps, c', hb', hreads⟩
      have hlt' : e'.index < w.effects.size := index_lt_of_effectBody hb'
      refine ⟨?_, c', ((steady_leave hb hobs).effectBody id e').trans hb', hreads⟩
      rw [dependencies_leave hw.consistent hobs (.inl hlt')]
      split
      · rename_i heq
        subst heq
        obtain rfl := some.inj (hb.symm.trans hb')
        exact hreads _ _ _ hcall
      · exact hdeps

lemma AtRest.turns (hw : w.AtRest sem asks) (hq : w.heap.Answers asks) (es : List EffectId)
    (slots : List Slot) (k : Pending S Unit) :
    ∃ w', sem.Tours (.turns es slots k w) (es.filter w.isLive) (.turns [] slots k w') ∧
      w.Stays sem w' := by
  induction es generalizing w with
  | nil => exact ⟨w, .refl _, .refl w⟩
  | cons e rest ih =>
    obtain ⟨w1, hfirst, hstays⟩ := hw.turn hq e rest slots k
    obtain ⟨w', hrest, hstays'⟩ := ih (hw.stays hstays) (hstays.answers hq)
    refine ⟨w', ?_, hstays.trans hstays'⟩
    rw [← singleton_append, filter_append]
    rw [funext hstays.isLive] at hrest
    exact hfirst.trans hrest

def readers (w : World S) (s : Slot) : List EffectId :=
  (w.registry.subscribersOf s).filter w.isLive

lemma AtRest.round (hw : w.AtRest sem asks) (hq : w.heap.Answers asks) (s : Slot)
    (slots : List Slot) (k : Pending S Unit) :
    ∃ w', sem.Tours (.turns [] (s :: slots) k w) (w.readers s) (.turns [] slots k w') ∧
      w.Stays sem w' := by
  obtain ⟨w', htours, hstays⟩ := hw.turns hq (w.registry.subscribersOf s) slots k
  exact ⟨w', .head rfl rfl htours, hstays⟩

lemma AtRest.nodup_readers (hw : w.AtRest sem asks) (s : Slot) : (w.readers s).Nodup :=
  (hw.consistent.nodup_subscribersOf s).filter _

lemma Watches.count_readers (hw : w.AtRest sem asks) (he : w.Watches sem e s) (s' : Slot) :
    (w.readers s').count e = if s' = s then 1 else 0 := by
  obtain ⟨hdeps, c, hb, -⟩ := he
  have hmem : e ∈ w.readers s' ↔ s' = s := by
    rw [readers, mem_filter, hw.consistent.agree, hdeps, mem_singleton, isLive, hb]
    exact and_iff_left rfl
  split
  · rename_i hs
    exact count_eq_one_of_mem (hw.nodup_readers s') (hmem.mpr hs)
  · rename_i hs
    exact count_eq_zero.mpr (mt hmem.mp hs)

end World

/-! ## Writes to properties -/

/-- A value to be written to a property of an object. -/
structure Assignment where
  object : ObjectId
  name : String
  value : Value

namespace Assignment

variable (a : Assignment)

/-- The property does not hold a value strictly equal to the new one. -/
def changes (h : Heap) : Bool :=
  !((h.fields a.object).get? a.name).any (·.strictEq a.value)

def adds (h : Heap) : Bool :=
  !(h.fields a.object).contains a.name

def second (h : Heap) : List Slot :=
  if a.adds h then [.iteration a.object] else []

def fields (h : Heap) : Table Value :=
  (h.fields a.object).insert a.name a.value

def stored (h : Heap) : Heap :=
  if a.changes h then h.setFields a.object (a.fields h) else h

lemma apply_set (h : Heap) : ((Update.set a.object a.name a.value).apply h).2 = (a.stored h,
      if a.changes h then .property a.object a.name :: a.second h else []) := by
  rw [Update.apply_set, stored, second, adds]
  cases hc : a.changes h <;> cases (h.fields a.object).contains a.name <;>
    simp [show Update.stores _ a.name a.value = _ from hc, fields]

def write (next : Unit → Program S α) : Program S α :=
  .step (.write (.set a.object a.name a.value)) next

lemma next_write (next : Unit → Program S α) (k : Pending S α) (w : World S) :
    (code (a.write next) k w).next sem =
      some (.turns [] (if a.changes w.heap then .property a.object a.name :: a.second w.heap else [])
        (.goOn next k) { w with heap := a.stored w.heap }) := by
  have happly := a.apply_set w.heap
  have hheap := congrArg Prod.fst happly
  have hslots := congrArg Prod.snd happly
  show some (turns [] ((Update.set a.object a.name a.value).apply w.heap).2.2
    (.goOn (fun _ => next ()) k) { w with heap := _ }) = _
  rw [hheap, hslots]

lemma stored_of_changes (hc : a.changes h = true) :
    a.stored h = h.setFields a.object (a.fields h) :=
  if_pos hc

lemma tours_unchanged (hc : a.changes w.heap = false) (next : Unit → Program S α)
    (k : Pending S α) : sem.Tours (.code (a.write next) k w) [] (.code (next ()) k w) := by
  have hnext : (code (a.write next) k w).next sem = some (.turns [] [] (.goOn next k) w) := by
    rw [a.next_write, stored, hc]
    rfl
  exact .head hnext rfl (.head rfl rfl (.head rfl rfl (.refl _)))

lemma tours_changed (hw : w.AtRest sem asks) (hq : (a.stored w.heap).Answers asks)
    (hc : a.changes w.heap = true) (next : Unit → Program S α) (k : Pending S α) :
    ∃ w1 w2, sem.Tours (.code (a.write next) k w) (w.readers (.property a.object a.name))
        (.turns [] (a.second w.heap) (.goOn next k) w1) ∧
      sem.Tours (.turns [] (a.second w.heap) (.goOn next k) w1)
        (if a.adds w.heap then w1.readers (.iteration a.object) else []) (.code (next ()) k w2) ∧
      ({ w with heap := a.stored w.heap } : World S).Stays sem w1 ∧ w1.Stays sem w2 := by
  have hw0 := hw.withHeap (a.stored w.heap)
  obtain ⟨w1, hfirst, hstays⟩ :=
    hw0.round hq (.property a.object a.name) (a.second w.heap) (.goOn next k)
  have hnext : (code (a.write next) k w).next sem = _ := a.next_write next k w
  rw [if_pos hc] at hnext
  cases hadds : a.adds w.heap with
  | false =>
    have hsecond : a.second w.heap = [] := if_neg (by simp [hadds])
    refine ⟨w1, w1, .head hnext rfl hfirst, ?_, hstays, .refl w1⟩
    rw [hsecond]
    exact .head rfl rfl (.head rfl rfl (.refl _))
  | true =>
    have hsecond : a.second w.heap = [.iteration a.object] := if_pos hadds
    obtain ⟨w2, hlast, hstays'⟩ := (hw0.stays hstays).round (hstays.answers hq)
      (.iteration a.object) [] (.goOn next k)
    refine ⟨w1, w2, .head hnext rfl hfirst, ?_, hstays, hstays'⟩
    rw [hsecond]
    have hend : sem.Tours (.turns [] [] (.goOn next k) w2) [] (.code (next ()) k w2) :=
      .head rfl rfl (.head rfl rfl (.refl _))
    have hall := hlast.trans hend
    rwa [append_nil] at hall

/-! ## Sequences of writes -/

def writeAll : List Assignment → Program S Unit
  | [] => .done ()
  | a :: rest => a.write fun _ => writeAll rest

def storedAll (h : Heap) (as : List Assignment) : Heap :=
  as.foldl (fun h a => a.stored h) h

/-- How many of the writes change one property. -/
def countChanges (o : ObjectId) (name : String) : Heap → List Assignment → Nat
  | _, [] => 0
  | h, a :: rest =>
    (if a.object = o ∧ a.name = name ∧ a.changes h then 1 else 0) +
      countChanges o name (a.stored h) rest

/-- Who watches one property runs once for every write that changes it. -/
lemma tours_writeAll (hw : w.AtRest sem asks)
    (hq : ∀ front, front <+: as → (storedAll w.heap front).Answers asks) {name : String}
    (he : w.Watches sem e (.property o name)) (k : Pending S Unit) :
    ∃ es w', sem.Tours (.code (writeAll as) k w) es (.code (.done ()) k w') ∧
      es.count e = countChanges o name w.heap as := by
  induction as generalizing w with
  | nil => exact ⟨[], w, .refl _, rfl⟩
  | cons a rest ih =>
    have hq1 : (a.stored w.heap).Answers asks := hq [a] ⟨rest, rfl⟩
    have hlater : ∀ front, front <+: rest → (storedAll (a.stored w.heap) front).Answers asks :=
      fun front hfront => hq (a :: front) (cons_prefix_cons.mpr ⟨rfl, hfront⟩)
    cases hc : a.changes w.heap with
    | false =>
      have hsame : a.stored w.heap = w.heap := if_neg (by simp [hc])
      rw [hsame] at hlater
      obtain ⟨es, w', htours, hcount⟩ := ih hw hlater he
      refine ⟨es, w', (a.tours_unchanged hc _ k).trans htours, ?_⟩
      rw [countChanges, hsame, hcount, if_neg (by simp [hc]), Nat.zero_add]
    | true =>
      obtain ⟨w1, w2, hfirst, hsecond, hstays1, hstays2⟩ :=
        a.tours_changed hw hq1 hc (fun _ => writeAll rest) k
      have hstays := hstays1.trans hstays2
      have hw0 := hw.withHeap (a.stored w.heap)
      have hheap : w2.heap = a.stored w.heap := (hstays.kept id).1
      rw [← hheap] at hlater
      obtain ⟨es, w', htours, hcount⟩ := ih (hw0.stays hstays) hlater (hstays.watches he)
      refine ⟨_, w', (hfirst.trans hsecond).trans htours, ?_⟩
      -- the second round is about another kind of slot
      have hnone : count e (if a.adds w.heap then w1.readers (.iteration a.object) else []) =
          0 := by
        split
        · rw [(hstays1.watches he).count_readers (hw0.stays hstays1)]
          exact if_neg (by simp [Slot.iteration, Slot.property])
        · rfl
      rw [count_append, count_append, hnone, Nat.add_zero, hcount,
        he.count_readers hw, countChanges, hheap]
      simp [Slot.property, hc]

end Assignment

/-! ## What is stored -/

lemma Assignment.fields_stored (a : Assignment) (hc : a.changes h = true)
    (ho : a.object.index < h.objects.size) : (a.stored h).fields a.object = a.fields h := by
  rw [a.stored_of_changes hc]
  simp [Heap.fields, Heap.setFields, Array.getD_eq_getD_getElem?, ho]

/-! ## Moments outside any run of an effect -/

lemma Op.IsInert.maxDepth_pos {op : Op S} (hop : op.IsInert) {call : Caller S} {r : op.Reply}
    (h : op.perform call w = some (r, w')) (hw : 0 < w.maxDepth) : 0 < w'.maxDepth := by
  cases op with
  | read q | peek q =>
    obtain ⟨⟨a, slots⟩, -, ⟨⟩⟩ := map_eq_some_iff.mp h
    simpa using hw
  | setMaxDepth n =>
    cases h
    exact Nat.lt_of_lt_of_le Nat.zero_lt_one (Nat.le_max_right n 1)
  | write | call | within | spawn | rerun | trigger => exact hop.elim
  | track | dispose =>
    cases h
    simpa using hw
  | _ =>
    cases h
    exact hw

lemma Moment.Step.maxDepth_pos {m' : Moment S} (h : m.Step sem m') (hm : 0 < m.world.maxDepth) :
    0 < m'.world.maxDepth := by
  cases h with
  | inert hop hr => exact hop.maxDepth_pos hr hm
  | enter => simpa [Moment.world] using hm
  | _ => exact hm

/-- A moment outside any run of an effect is one of rest, if all effects only look. -/
lemma Semantics.atRest_after (hm : sem.after (.code p .nothing { state := x }) n = some m)
    (hidle : m.running = [])
    (hbodies : ∀ e c, m.world.effectBody e = some c → (sem c).Observes sem asks False) :
    m.world.AtRest sem asks where
  consistent := by
    have hstart : (code p .nothing { state := x }).world.registry.Consistent := .empty
    exact consistent_after hstart hm
  idle e := by
    have hstart : (code p .nothing { state := x }).Counted [] := by
      intro e
      rfl
    have hcounted : m.Counted [] := after_keeps (fun hs hc => hs.counted hc) hm hstart
    have hpos : 0 < m.world.maxDepth :=
      after_keeps (P := fun m => 0 < m.world.maxDepth) (fun hs hp => hs.maxDepth_pos hp) hm
        (by decide : 0 < 32)
    rwa [hcounted e, hidle]
  bodies := hbodies

/-- **A write tells those who read.** At a moment outside any run of an effect, while the bodies of
all effects only look: a write of a value strictly equal to the one that is there changes nothing
and runs nothing. Any other write stores the value, in place or at the end, and runs the effects
that depend on the property, and after them, if the property is new, those that depend on the names
of the object by then; each once, in the order of the lists, and nobody else. -/
theorem Semantics.set_tells_exactly_readers (sem : Semantics S) (p : Program S α) (x : S.State)
    {n : Nat} {m : Moment S} (hm : sem.after (.code p .nothing { state := x }) n = some m)
    (hidle : m.running = []) (asks : Query → Prop)
    (hbodies : ∀ e c, m.world.effectBody e = some c → (sem c).Observes sem asks False) :
    (∀ {β : Type} (a : Assignment) (next : Unit → Program S β) (k : Pending S β),
      (a.changes m.world.heap = false →
        sem.Tours (.code (a.write next) k m.world) [] (.code (next ()) k m.world)) ∧
      (a.changes m.world.heap = true → a.object.index < m.world.heap.objects.size →
        (a.stored m.world.heap).Answers asks → ∃ w₁ w₂, sem.Tours (.code (a.write next) k m.world)
            (m.world.readers (.property a.object a.name))
            (.turns [] (a.second m.world.heap) (.goOn next k) w₁) ∧
          sem.Tours (.turns [] (a.second m.world.heap) (.goOn next k) w₁)
            (if a.adds m.world.heap then w₁.readers (.iteration a.object) else [])
            (.code (next ()) k w₂) ∧
          (m.world.readers (.property a.object a.name)).Nodup ∧
          (w₁.readers (.iteration a.object)).Nodup ∧
          w₁.heap = m.world.heap.setFields a.object (w₂.heap.fields a.object) ∧
          w₂.heap = w₁.heap ∧
          (∀ name, (w₂.heap.fields a.object).get? name =
            if name = a.name then some a.value else (m.world.heap.fields a.object).get? name) ∧
          (w₂.heap.fields a.object).keys =
            if a.adds m.world.heap then (m.world.heap.fields a.object).keys ++ [a.name]
            else (m.world.heap.fields a.object).keys)) ∧
    (∀ (as : List Assignment) (e : EffectId) (o : ObjectId) (name : String) (k : Pending S Unit),
      m.world.Watches sem e (.property o name) →
      (∀ front, front <+: as → (Assignment.storedAll m.world.heap front).Answers asks) →
      ∃ es w', sem.Tours (.code (Assignment.writeAll as) k m.world) es (.code (.done ()) k w') ∧
        es.count e = Assignment.countChanges o name m.world.heap as) := by
  have hrest : m.world.AtRest sem asks := atRest_after hm hidle hbodies
  refine ⟨fun a next k => ⟨fun hc => a.tours_unchanged hc next k, fun hc ho hq => ?_⟩,
    fun as e o name k he hq => Assignment.tours_writeAll hrest hq he k⟩
  obtain ⟨w₁, w₂, hfirst, hsecond, hstays, hstays'⟩ := a.tours_changed hrest hq hc next k
  have hrest₁ : w₁.AtRest sem asks := (hrest.withHeap _).stays hstays
  have hheap : w₁.heap = a.stored m.world.heap := (hstays.kept id).1
  have hheap' : w₂.heap = w₁.heap := (hstays'.kept id).1
  have hfields : w₂.heap.fields a.object = a.fields m.world.heap := by
    rw [hheap', hheap, a.fields_stored hc ho]
  refine ⟨w₁, w₂, hfirst, hsecond, hrest.nodup_readers _, hrest₁.nodup_readers _, ?_, hheap', ?_, ?_⟩
  · rw [hfields, hheap, a.stored_of_changes hc]
  · intro name
    rw [hfields]
    exact Table.get?_insert _ _ _ _
  · rw [hfields, Assignment.fields, Table.keys_insert, Assignment.adds]
    cases (m.world.heap.fields a.object).contains a.name <;> rfl

/-! ## Two effects and one property -/

namespace Watcher

/-- All pieces of code look at one property. -/
def glance : Semantics Watcher := fun _ =>
  ask "text" fun _ => .done ()

def pair : Program Watcher Unit := do
  let _ ← Program.newObject (.ofList [("text", .text "a")])
  let _ ← Program.perform (S := Watcher) (.spawn .child)
  let _ ← Program.perform (S := Watcher) (.spawn .hidden)

def told (name text : String) : Assignment :=
  ⟨⟨0⟩, name, .text text⟩

def writes : List Assignment :=
  [told "text" "b", told "text" "b", told "more" "c", told "text" "a"]

def Answerable (q : Query) : Prop :=
  ∀ h, ∃ a, q.answer h = some a

lemma observes_glance (c : Watcher.Code) : (glance c).Observes glance Answerable False :=
  .look (fun _ => ⟨_, rfl⟩) fun _ => .done ()

lemma ownReads_glance (h : glance.caller bound c w = some r) :
    (glance.ownReads bound c w).eraseDups = [.property ⟨0⟩ "text"] := by
  cases bound with
  | zero => cases h
  | succ n => rfl

/-- A new text runs both effects in their order, and of four writes two run the first one. -/
theorem set_tells_exactly_readers_pair :
    ∃ m w₁ w₂ es w', glance.after (.code pair .nothing { state := () }) 13 = some m ∧
      m.running = [] ∧
      glance.Tours (.code ((told "text" "b").write .done) .nothing m.world) [⟨0⟩, ⟨1⟩]
        (.turns [] [] (.goOn .done .nothing) w₁) ∧
      glance.Tours (.turns [] [] (.goOn .done .nothing) w₁) [] (.code (.done ()) .nothing w₂) ∧
      glance.Tours (.code (Assignment.writeAll writes) .nothing m.world) es
        (.code (.done ()) .nothing w') ∧
      es.count ⟨0⟩ = 2 := by
  have hchecks : ((glance.after (.code pair .nothing { state := () }) 13).any fun m =>
      m.running.isEmpty && (told "text" "b").changes m.world.heap &&
        !(told "text" "b").adds m.world.heap && decide (0 < m.world.heap.objects.size) &&
        decide (m.world.readers (.property ⟨0⟩ "text") = [⟨0⟩, ⟨1⟩]) &&
        decide (m.world.registry.dependenciesOf ⟨0⟩ = [.property ⟨0⟩ "text"]) &&
        (m.world.effectBody ⟨0⟩).isSome &&
        decide (Assignment.countChanges ⟨0⟩ "text" m.world.heap writes = 2)) = true := by
    decide +kernel
  obtain ⟨m, hm, hchecks⟩ := (any_eq_true _ _).mp hchecks
  simp only [Bool.and_eq_true, decide_eq_true_eq, List.isEmpty_iff, Bool.not_eq_true'] at hchecks
  obtain ⟨⟨⟨⟨⟨⟨⟨hidle, hchanges⟩, hadds⟩, hsize⟩, hreaders⟩, hdeps⟩, hbody⟩, hcount⟩ := hchecks
  obtain ⟨c, hc⟩ := isSome_iff_exists.mp hbody
  obtain ⟨hone, hall⟩ := glance.set_tells_exactly_readers pair () hm hidle Answerable
    fun _ c _ => observes_glance c
  obtain ⟨w₁, w₂, hfirst, hsecond, -⟩ :=
    (hone (told "text" "b") .done .nothing).2 hchanges hsize fun q hq => hq _
  obtain ⟨es, w', htours, hes⟩ := hall writes ⟨0⟩ ⟨0⟩ "text" .nothing
    ⟨hdeps, c, hc, fun _ _ _ => ownReads_glance⟩ fun _ _ q hq => hq _
  have hnone : (told "text" "b").second m.world.heap = [] := if_neg (by simp [hadds])
  have hreaders' : m.world.readers (.property (told "text" "b").object (told "text" "b").name) =
      [⟨0⟩, ⟨1⟩] := hreaders
  rw [hnone, hreaders'] at hfirst
  rw [hnone, hadds] at hsecond
  exact ⟨m, w₁, w₂, es, w', hm, hidle, hfirst, hsecond, htours, hes.trans hcount⟩

end Watcher

end LiveMarkup
