import LiveMarkup.Proofs.Naming

/-!
# What a reading depends on

A reading depends on the slots it visits and on nothing else: in a heap that agrees with the first
one on all of them, up to names, it ends in the same way, up to names. The statement is about the
slots of the whole reading, while each of its steps knows only its own; that readings never take
back a visit bridges the two.

The bound on nesting differs between the heaps. Where the first reading ended, a larger bound
changes nothing.
-/

namespace LiveMarkup

open List Heap
open ExceptT (lift run_bind run_tryCatch)
open Heap (Agree)

namespace Reading

variable {γ : Type}

/-! ## Visits stay -/

class Grows (m : Reading α) : Prop where
  mem : ∀ {seen a out}, m seen = some (a, out) → ∀ s ∈ seen, s ∈ out

instance Grows.pure (a : α) : Grows (Pure.pure a : Reading α) where
  mem h s hs := by
    cases h
    exact hs

instance Grows.bind [hm : Grows m] [g : ∀ a, Grows (f a)] : Grows (m >>= f) where
  mem h s hs := by
    obtain ⟨⟨a, mid⟩, ha, hc⟩ := Option.bind_eq_some_iff.mp h
    exact (g a).mem hc s (hm.mem ha s hs)

instance Grows.visit (s : Slot) : Grows (visit s) where
  mem h t ht := by
    cases h
    exact Array.mem_push.mpr (.inl ht)

instance Grows.endless : Grows (endless : Reading α) where
  mem h := by cases h

instance Grows.ite {c : Prop} [Decidable c] {n : Reading α} [hm : Grows m] [hn : Grows n] :
    Grows (if c then m else n) := by
  split
  · exact hm
  · exact hn

instance Grows.mapM [∀ c, Grows (f c)] (cs : List γ) : Grows (cs.mapM f) := by
  induction cs with
  | nil => exact .pure _
  | cons c rest ih =>
    rw [mapM_cons]
    infer_instance

lemma forM_visit (slot : γ → Slot) (cs : List γ) (seen : Array Slot) :
    (cs.forM fun c => visit (slot c)) seen = some ((), seen ++ (cs.map slot).toArray) := by
  induction cs generalizing seen with
  | nil =>
    show some ((), seen) = _
    simp
  | cons c rest ih =>
    show (rest.forM fun c => visit (slot c)) (seen.push (slot c)) = _
    rw [ih]
    simp

instance Grows.forM_visit (slot : γ → Slot) (cs : List γ) :
    Grows (cs.forM fun c => Reading.visit (slot c)) where
  mem h s hs := by
    rw [Reading.forM_visit] at h
    cases h
    exact Array.mem_append.mpr (.inl hs)

/-! ## Two readings side by side -/

abbrev SlotsRel (β : Naming) (seen seen' : Array Slot) : Prop :=
  Forall₂ (Slot.Rel β) seen.toList seen'.toList

/-- Where the first reading ends and visited only slots of `A`, the second ends too, in a related
result and with visits that correspond. -/
def Sim (β : Naming) (A : Set Slot) (R : α → α' → Prop) (m : Reading α) (m' : Reading α') : Prop :=
  ∀ seen seen' a out, SlotsRel β seen seen' → m seen = some (a, out) → (∀ s ∈ out, s ∈ A) →
    ∃ a' out', m' seen' = some (a', out') ∧ R a a' ∧ SlotsRel β out out'

namespace Sim

variable {R : α → α' → Prop}

lemma pure (h : R a a') : Sim β A R (Pure.pure a : Reading α) (Pure.pure a' : Reading α') := by
  intro seen seen' b out hseen hb _
  cases hb
  exact ⟨a', seen', rfl, h, hseen⟩

lemma bind [g : ∀ a, Grows (f a)] (hm : Sim β A R m m')
    (hf : ∀ a a', R a a' → Sim β A Q (f a) (f' a')) : Sim β A Q (m >>= f) (m' >>= f') := by
  intro seen seen' c out hseen hc hout
  obtain ⟨⟨a, mid⟩, ha, hc⟩ := Option.bind_eq_some_iff.mp hc
  have hmid : ∀ s ∈ mid, s ∈ A := fun s hs => hout s ((g a).mem hc s hs)
  obtain ⟨a', mid', ha', haa, hmm⟩ := hm seen seen' a mid hseen ha hmid
  obtain ⟨c', out', hc', hcc, hoo⟩ := hf a a' haa mid mid' c out hmm hc hout
  exact ⟨c', out', Option.bind_eq_some_iff.mpr ⟨(a', mid'), ha', hc'⟩, hcc, hoo⟩

lemma map {g : α → γ} {g' : α' → γ'} (hm : Sim β A R m m') (h : ∀ a a', R a a' → Q (g a) (g' a')) :
    Sim β A Q (m >>= fun a => Pure.pure (g a)) (m' >>= fun a => Pure.pure (g' a)) :=
  hm.bind fun a a' ha => .pure (h a a' ha)

lemma ite [Decidable c] [Decidable c'] (hc : c ↔ c') (ht : Sim β A R n n') (he : Sim β A R m m') :
    Sim β A R (if c then n else m) (if c' then n' else m') := by
  by_cases h : c
  · rwa [if_pos h, if_pos (hc.mp h)]
  · rwa [if_neg h, if_neg (mt hc.mpr h)]

lemma imp (hm : Sim β A R m m') (h : ∀ a a', R a a' → R' a a') : Sim β A R' m m' := by
  intro seen seen' a out hseen ha hout
  obtain ⟨a', out', ha', haa, hoo⟩ := hm seen seen' a out hseen ha hout
  exact ⟨a', out', ha', h a a' haa, hoo⟩

lemma endless : Sim β A R (endless : Reading α) m' := by
  intro seen seen' a out _ ha
  cases ha

lemma visit (hs : Slot.Rel β s s') :
    Sim β A (fun _ _ => s ∈ A) (visit s) (visit s') := by
  intro seen seen' a out hseen ha hout
  cases ha
  refine ⟨(), seen'.push s', rfl, hout s (by simp), ?_⟩
  simpa [SlotsRel] using rel_append hseen (.cons hs .nil)

lemma forM_visit {δ : Type} {slot slot' : δ → Slot} (ds : List δ)
    (hs : ∀ d, Slot.Rel β (slot d) (slot' d)) :
    Sim β A (fun _ _ => ∀ d ∈ ds, slot d ∈ A) (ds.forM fun d => Reading.visit (slot d))
      (ds.forM fun d => Reading.visit (slot' d)) := by
  intro seen seen' a out hseen ha hout
  rw [Reading.forM_visit] at ha
  cases ha
  refine ⟨(), _, Reading.forM_visit slot' ds seen', ?_, ?_⟩
  · intro d hd
    exact hout _ (by simpa using .inr ⟨d, hd, rfl⟩)
  · have hds : Forall₂ (Slot.Rel β) (ds.map slot) (ds.map slot') := by
      rw [forall₂_map_left_iff, forall₂_map_right_iff]
      exact forall₂_same.mpr fun d _ => hs d
    simpa [SlotsRel] using rel_append hseen hds

lemma mapM {δ δ' : Type} {P : δ → δ' → Prop} {f : δ → Reading γ} {f' : δ' → Reading γ}
    {ds : List δ} {ds' : List δ'} [∀ d, Grows (f d)] (hds : Forall₂ P ds ds')
    (hf : ∀ d d', P d d' → Sim β A Eq (f d) (f' d')) : Sim β A Eq (ds.mapM f) (ds'.mapM f') := by
  induction hds with
  | nil => exact .pure rfl
  | @cons d d' ds ds' hd _ ih =>
    rw [mapM_cons, mapM_cons]
    refine (hf d d' hd).bind ?_
    rintro c _ rfl
    exact ih.map fun _ _ h => h ▸ rfl

end Sim

end Reading

open Reading

namespace Heap

/-! ## Containers -/

instance grows_readItems (h : Heap) (l : ListId) : Grows (h.readItems l) := by
  unfold readItems
  infer_instance

instance grows_readEntries (h : Heap) (o : ObjectId) : Grows (h.readEntries o) := by
  unfold readEntries
  infer_instance

lemma readItems_apply (h : Heap) (l : ListId) (seen : Array Slot) : h.readItems l seen =
      some (h.items l, seen.push (.length l) ++
        ((range (h.items l).length).map (Slot.item l)).toArray) := by
  show ((range (h.items l).length).forM fun i => visit (.item l i))
    (seen.push (.length l)) >>= _ = _
  rw [forM_visit]
  rfl

lemma readEntries_apply (h : Heap) (o : ObjectId) (seen : Array Slot) : h.readEntries o seen =
      some ((h.fields o).entries, seen.push (.iteration o) ++
        ((h.fields o).keys.map (Slot.property o)).toArray) := by
  show ((h.fields o).keys.forM fun k => visit (.property o k))
    (seen.push (.iteration o)) >>= _ = _
  rw [forM_visit]
  rfl

lemma sim_readItems (hA : Agree β A h h') {l l' : ListId} (hl : β.rel (.list l) (.list l')) :
    Sim β A (Forall₂ (Value.Rel β)) (h.readItems l) (h'.readItems l') := by
  refine (Sim.visit (.length hl)).bind ?_
  intro _ _ hlen
  rw [← hA.length hl hlen]
  exact (Sim.forM_visit _ (Slot.Rel.item hl)).map fun _ _ hs =>
    hA.items hl hlen fun i hi => hs i (mem_range.mpr hi)

lemma sim_readEntries (hA : Agree β A h h') {o o' : ObjectId}
    (ho : β.rel (.object o) (.object o')) :
    Sim β A (Forall₂ (EntryRel (Value.Rel β))) (h.readEntries o) (h'.readEntries o') := by
  refine (Sim.visit (.iteration ho)).bind ?_
  intro _ _ hi
  rw [← hA.keys ho hi]
  exact (Sim.forM_visit _ (Slot.Rel.property ho)).map fun _ _ hs => hA.entries ho hi hs

/-! ## Texts -/

section Display

variable {display display' : Value → Reading String}

instance grows_attributeHtml [∀ v, Grows (display v)] (name : String) (v : Value) :
    Grows (attributeHtml display name v) := by
  rw [attributeHtml.eq_def]
  split <;> infer_instance

instance grows_attributesHtml [∀ v, Grows (display v)] (attrs : Table Value) :
    Grows (attributesHtml display attrs) := by
  unfold attributesHtml
  infer_instance

lemma sim_attributeHtml (hd : ∀ v v', Value.Rel β v v' → Sim β A Eq (display v) (display' v'))
    (name : String) (hv : Value.Rel β v v') :
    Sim β A Eq (attributeHtml display name v) (attributeHtml display' name v') := by
  have hshown : Sim β A Eq
      (do let s ← display v; return some (name ++ "=\"" ++ Text.escapeHtml s ++ "\""))
      (do let s ← display' v'; return some (name ++ "=\"" ++ Text.escapeHtml s ++ "\"")) :=
    (hd v v' hv).map fun _ _ h => h ▸ rfl
  cases hv with
  | undefined | null => exact .pure rfl
  | bool b => cases b <;> exact .pure rfl
  | _ => exact hshown

lemma sim_attributesHtml [∀ v, Grows (display v)]
    (hd : ∀ v v', Value.Rel β v v' → Sim β A Eq (display v) (display' v'))
    {attrs attrs' : Table Value} (ha : attrs.Rel (Value.Rel β) attrs') :
    Sim β A Eq (attributesHtml display attrs) (attributesHtml display' attrs') := by
  refine (Sim.mapM ha fun e e' he => ?_).map fun _ _ h => h ▸ rfl
  rw [← he.1]
  exact sim_attributeHtml hd e.1 he.2

section

variable [∀ v, Grows (display v)]
  (hd : ∀ v v', Value.Rel β v v' → Sim β A Eq (display v) (display' v'))
  {own defaults : Table Value} (ho : own.Rel (Value.Rel β) own')
  (hdef : defaults.Rel (Value.Rel β) defaults')
include hd ho hdef

lemma sim_joinedClass :
    Sim β A Eq (joinedClass display own defaults) (joinedClass display' own' defaults') := by
  have hfirst := hdef.get? "class"
  have hsecond := ho.get? "class"
  rw [joinedClass, joinedClass]
  generalize defaults.get? "class" = a, defaults'.get? "class" = a' at hfirst ⊢
  generalize own.get? "class" = b, own'.get? "class" = b' at hsecond ⊢
  cases hfirst with
  | none => exact .pure rfl
  | some hfirst =>
    cases hsecond with
    | none => exact .pure rfl
    | some hsecond =>
      refine (hd _ _ hfirst).bind ?_
      rintro s _ rfl
      exact (hd _ _ hsecond).map fun _ _ h => h ▸ rfl

lemma sim_mergeAttributes : Sim β A (Table.Rel (Value.Rel β)) (mergeAttributes display own defaults)
      (mergeAttributes display' own' defaults') := by
  refine (sim_joinedClass hd ho hdef).bind (g := fun joined => ?_) ?_
  · cases joined <;> exact .pure _
  · rintro joined _ rfl
    cases joined with
    | none => exact .pure (hdef.insertAll ho)
    | some s => exact .pure ((hdef.insertAll ho).insert "class" (.text s))

end

end Display

instance grows_displayWithin (h : Heap) (depth : Nat) (seen : List ListId) (v : Value) :
    Grows (h.displayWithin depth seen v) := by
  induction depth generalizing seen v with
  | zero => exact .endless
  | succ depth ih =>
    rw [displayWithin.eq_def]
    cases v with
    | list l =>
      show Grows (if l ∈ seen then _ else _)
      infer_instance
    | host i =>
      dsimp only
      split <;> infer_instance
    | _ => exact .pure _

instance grows_display (h : Heap) (v : Value) : Grows (h.display v) := grows_displayWithin h _ _ v

lemma sim_displayWithin (hA : Agree β A h h') {depth depth' : Nat} (hle : depth ≤ depth')
    {seen seen' : List ListId} (hseen : Forall₂ (fun l l' => β.rel (.list l) (.list l')) seen seen')
    (hv : Value.Rel β v v') :
    Sim β A Eq (h.displayWithin depth seen v) (h'.displayWithin depth' seen' v') := by
  induction depth generalizing depth' seen seen' v v' with
  | zero => exact .endless
  | succ depth ih =>
    obtain ⟨deeper, rfl⟩ : ∃ k, depth' = k + 1 := ⟨depth' - 1, by omega⟩
    have hle' : depth ≤ deeper := by omega
    rw [displayWithin.eq_def, displayWithin.eq_def]
    cases hv with
    | @list l l' hl =>
      have hmem : l ∈ seen ↔ l' ∈ seen' :=
        Naming.mem_iff Ref.list (fun _ _ => Ref.list.inj) hseen hl
      refine .ite hmem (.pure rfl) ?_
      refine (sim_readItems hA hl).bind fun items items' hitems => ?_
      refine (Sim.mapM hitems fun item item' hitem => ?_).map fun _ _ h => h ▸ rfl
      rw [hitem.isNullish]
      split
      · exact .pure rfl
      · exact ih hle' (.cons hl hseen) hitem
    | @host i i' hi =>
      have hhost := hA.hosts i i' hi
      dsimp only
      generalize h.hostObject i = x, h'.hostObject i' = x' at hhost
      cases hhost with
      | bag hattrs =>
        exact sim_attributesHtml (fun v v' hv => ih hle' .nil hv) hattrs
      | _ => exact .pure rfl
    | _ => exact .pure rfl

lemma sim_display (hA : Agree β A h h') (hv : Value.Rel β v v') :
    Sim β A Eq (h.display v) (h'.display v') :=
  sim_displayWithin hA hA.nesting .nil hv

/-! ## JSON -/

section Json

variable {R : α → α' → Prop}

instance grows_run_pure (a : α) : Grows (pure a : JsonReading α).run := .pure _

instance grows_run_throw (e : ValueError) : Grows (throw e : JsonReading α).run := .pure _

instance grows_bindCont {f : α → JsonReading γ} [hf : ∀ a, Grows (f a).run]
    (r : Except ValueError α) : Grows (ExceptT.bindCont f r) := by
  cases r with
  | ok a => exact hf a
  | error e => exact .pure _

instance grows_run_bind {f : α → JsonReading γ} [Grows m.run] [∀ a, Grows (f a).run] :
    Grows (m >>= f).run :=
  inferInstanceAs (Grows (m.run >>= ExceptT.bindCont f))

instance grows_run_lift [Grows m] : Grows (liftM m : JsonReading α).run :=
  inferInstanceAs (Grows (m >>= fun a => pure (Except.ok a)))

instance grows_run_mapM {f : γ → JsonReading α} [∀ c, Grows (f c).run] (cs : List γ) :
    Grows (cs.mapM f).run := by
  induction cs with
  | nil => exact .pure _
  | cons c rest ih =>
    rw [mapM_cons]
    infer_instance

instance grows_run_orNull [Grows form.run] : Grows (orNull form).run := by
  rw [orNull, run_tryCatch]
  refine Grows.bind (g := fun r => ?_)
  cases r <;> exact .pure _

lemma sim_run_bind {f : α → JsonReading γ} {f' : α' → JsonReading γ'} [∀ a, Grows (f a).run]
    (hm : Sim β A (ExceptRel R) m.run m'.run)
    (hf : ∀ a a', R a a' → Sim β A (ExceptRel Q) (f a).run (f' a').run) :
    Sim β A (ExceptRel Q) (m >>= f).run (m' >>= f').run := by
  refine hm.bind (f := ExceptT.bindCont f) fun r r' hr => ?_
  cases hr with
  | ok h => exact hf _ _ h
  | error e => exact .pure (.error e)

lemma sim_run_lift (hm : Sim β A R m m') : Sim β A (ExceptRel R) (lift m : JsonReading α).run
      (lift m' : JsonReading α').run :=
  hm.map fun _ _ h => .ok h

lemma sim_run_map {m : JsonReading α} {m' : JsonReading α'} {g : α → γ} {g' : α' → γ'}
    (hm : Sim β A (ExceptRel R) m.run m'.run) (h : ∀ a a', R a a' → Q (g a) (g' a')) :
    Sim β A (ExceptRel Q) (m >>= fun a => pure (g a)).run (m' >>= fun a => pure (g' a)).run :=
  sim_run_bind hm fun a a' ha => .pure (.ok (h a a' ha))

lemma sim_run_mapM {δ δ' : Type} {P : δ → δ' → Prop} {f : δ → JsonReading γ}
    {f' : δ' → JsonReading γ} {ds : List δ} {ds' : List δ'} [∀ d, Grows (f d).run]
    (hds : Forall₂ P ds ds')
    (hf : ∀ d d', P d d' → Sim β A (ExceptRel Eq) (f d).run (f' d').run) :
    Sim β A (ExceptRel Eq) (ds.mapM f).run (ds'.mapM f').run := by
  induction hds with
  | nil => exact .pure (.ok rfl)
  | @cons d d' ds ds' hd _ ih =>
    rw [mapM_cons, mapM_cons]
    refine sim_run_bind (hf d d' hd) ?_
    rintro c _ rfl
    exact sim_run_map ih fun _ _ h => h ▸ rfl

lemma sim_run_orNull (hf : Sim β A (ExceptRel Eq) form.run form'.run) :
    Sim β A (ExceptRel Eq) (orNull form).run (orNull form').run := by
  rw [orNull, orNull, run_tryCatch, run_tryCatch]
  refine hf.bind (g := fun r => ?_) ?_
  · cases r <;> exact .pure _
  · intro r r' hr
    cases hr with
    | ok h => exact .pure (.ok h)
    | error e => exact .pure (.ok rfl)

end Json

instance grows_jsonWithin (h : Heap) (depth : Nat) (seen : List Container) (v : Value) :
    Grows (h.jsonWithin depth seen v).run := by
  induction depth generalizing seen v with
  | zero => exact .endless
  | succ depth ih =>
    rw [jsonWithin.eq_def]
    cases v with
    | list l =>
      show Grows (if .list l ∈ seen then _ else _ : JsonReading Json).run
      split <;> infer_instance
    | object o =>
      show Grows (if .object o ∈ seen then _ else _ : JsonReading Json).run
      split <;> infer_instance
    | host i =>
      dsimp only
      split <;> infer_instance
    | _ => exact .pure _

lemma sim_jsonWithin (hA : Agree β A h h') {depth depth' : Nat} (hle : depth ≤ depth')
    {seen seen' : List Container} (hseen : Forall₂ (fun c c' => β.rel c.ref c'.ref) seen seen')
    (hv : Value.Rel β v v') :
    Sim β A (ExceptRel Eq) (h.jsonWithin depth seen v).run (h'.jsonWithin depth' seen' v').run := by
  induction depth generalizing depth' seen seen' v v' with
  | zero => exact .endless
  | succ depth ih =>
    obtain ⟨deeper, rfl⟩ : ∃ k, depth' = k + 1 := ⟨depth' - 1, by omega⟩
    have hle' : depth ≤ deeper := by omega
    rw [jsonWithin.eq_def, jsonWithin.eq_def]
    cases hv with
    | @list l l' hl =>
      have hmem : .list l ∈ seen ↔ .list l' ∈ seen' :=
        Naming.mem_iff Container.ref Container.ref_injective hseen hl
      refine .ite hmem (.pure (.error _)) ?_
      have hseen' : Forall₂ (fun c c' : Container => β.rel c.ref c'.ref)
          (.list l :: seen) (.list l' :: seen') := .cons hl hseen
      refine sim_run_bind (sim_run_lift (sim_readItems hA hl)) fun items items' hitems => ?_
      exact sim_run_map (sim_run_mapM hitems fun _ _ => ih hle' hseen') fun _ _ h => h ▸ rfl
    | @object o o' ho =>
      have hmem : .object o ∈ seen ↔ .object o' ∈ seen' :=
        Naming.mem_iff Container.ref Container.ref_injective hseen ho
      refine .ite hmem (.pure (.error _)) ?_
      have hseen' : Forall₂ (fun c c' : Container => β.rel c.ref c'.ref)
          (.object o :: seen) (.object o' :: seen') := .cons ho hseen
      refine sim_run_bind (sim_run_lift (sim_readEntries hA ho)) fun es es' hes => ?_
      refine sim_run_map (sim_run_mapM (P := EntryRel (Value.Rel β)) ?_ ?_) fun _ _ h => h ▸ rfl
      · refine rel_filter ?_ hes
        rintro ⟨k, u⟩ ⟨k', u'⟩ ⟨-, hu⟩
        cases hu <;> exact Iff.rfl
      · rintro ⟨k, u⟩ ⟨k', u'⟩ ⟨hk, hu⟩
        obtain rfl : k = k' := hk
        exact sim_run_map (ih hle' hseen' hu) fun _ _ h => h ▸ rfl
    | @host i i' hi =>
      have hhost := hA.hosts i i' hi
      dsimp only
      generalize h.hostObject i = x, h'.hostObject i' = x' at hhost
      cases hhost with
      | bag hattrs =>
        refine sim_run_map (sim_run_mapM hattrs ?_) fun _ _ h => h ▸ rfl
        rintro ⟨k, u⟩ ⟨k', u'⟩ ⟨hk, hu⟩
        obtain rfl : k = k' := hk
        exact sim_run_map (sim_run_orNull (ih hle' .nil hu)) fun _ _ h => h ▸ rfl
      | _ => exact .pure (.ok rfl)
    | _ => exact .pure (.ok rfl)

/-! ## Numbers, comparisons, classes and styles -/

lemma sim_toNumber (hA : Agree β A h h') (hv : Value.Rel β v v') :
    Sim β A Eq (h.toNumber v) (h'.toNumber v') := by
  cases hv with
  | list hl => exact (sim_display hA (.list hl)).map fun _ _ h => h ▸ rfl
  | _ => exact .pure rfl

instance grows_toPrimitive (h : Heap) (v : Value) : Grows (h.toPrimitive v) := by
  unfold toPrimitive
  split <;> infer_instance

lemma sim_toPrimitive (hA : Agree β A h h') (hv : Value.Rel β v v') :
    Sim β A (fun p p' => p = p' ∧ p.isPrimitive = true) (h.toPrimitive v) (h'.toPrimitive v') := by
  have hshown : Sim β A (fun p p' => p = p' ∧ p.isPrimitive = true)
      (do let s ← h.display v; return Value.text s)
      (do let s ← h'.display v'; return Value.text s) :=
    (sim_display hA hv).map fun _ _ h => ⟨h ▸ rfl, rfl⟩
  cases hv with
  | list | object | function | host => exact hshown
  | _ => exact .pure ⟨rfl, rfl⟩

lemma sim_looseEq (hA : Agree β A h h') {a a' b b' : Value} (ha : Value.Rel β a a')
    (hb : Value.Rel β b b') : Sim β A Eq (h.looseEq a b) (h'.looseEq a' b') := by
  rw [looseEq, looseEq, ha.isNullish, hb.isNullish, ha.isPrimitive, hb.isPrimitive, ha.strictEq hb]
  split
  · exact .pure rfl
  · split
    · exact .pure rfl
    · refine (sim_toPrimitive hA ha).bind ?_
      rintro p _ ⟨rfl, -⟩
      exact (sim_toPrimitive hA hb).map fun _ _ h => h.1 ▸ rfl

instance grows_trueFlags (h : Heap) (o : ObjectId) : Grows (h.trueFlags o) := Grows.bind

lemma filter_isTruthy_rel (he : Forall₂ (EntryRel (Value.Rel β)) entries entries') :
    Forall₂ (EntryRel (Value.Rel β)) (entries.filter (·.2.isTruthy))
      (entries'.filter (·.2.isTruthy)) := by
  refine rel_filter ?_ he
  intro e e' h
  show e.2.isTruthy = true ↔ e'.2.isTruthy = true
  rw [h.2.isTruthy]

lemma sim_trueFlags (hA : Agree β A h h') (ho : β.rel (.object o) (.object o')) :
    Sim β A Eq (h.trueFlags o) (h'.trueFlags o') := by
  refine (sim_readEntries hA ho).map fun entries entries' he => ?_
  rw [← forall₂_eq_eq_eq]
  exact rel_map (fun _ _ h => h.1) (filter_isTruthy_rel he)

instance grows_itemClasses (h : Heap) (v : Value) : Grows (h.itemClasses v) := by
  unfold itemClasses
  split <;> infer_instance

section

variable (hA : Agree β A h h') (hv : Value.Rel β v v')
include hA hv

lemma sim_itemClasses : Sim β A Eq (h.itemClasses v) (h'.itemClasses v') := by
  cases hv with
  | object ho => exact sim_trueFlags hA ho
  | _ => exact .pure rfl

lemma sim_classNames : Sim β A Eq (h.classNames v) (h'.classNames v') := by
  cases hv with
  | list hl =>
    refine (sim_readItems hA hl).bind fun items items' hitems => ?_
    exact (Sim.mapM hitems fun _ _ => sim_itemClasses hA).map fun _ _ h => h ▸ rfl
  | object ho => exact (sim_trueFlags hA ho).map fun _ _ h => h ▸ rfl
  | _ => exact .pure rfl

lemma sim_styleNames : Sim β A Eq (h.styleNames v) (h'.styleNames v') := by
  cases hv with
  | object ho =>
    refine (sim_readEntries hA ho).bind fun entries entries' he => ?_
    exact (Sim.mapM (filter_isTruthy_rel he) fun e e' hee =>
      (sim_display hA hee.2).map fun _ _ h => by rw [h, hee.1]).map fun _ _ h => h ▸ rfl
  | _ => exact .pure rfl

end

end Heap

/-! ## Questions -/

/-- The same question up to names. -/
inductive Query.Rel (β : Naming) : Query → Query → Prop
  | property (h : β.rel (.object o) (.object o')) (name : String) :
      Rel β (.property o name) (.property o' name)
  | names (h : β.rel (.object o) (.object o')) : Rel β (.names o) (.names o')
  | entries (h : β.rel (.object o) (.object o')) : Rel β (.entries o) (.entries o')
  | size (h : β.rel (.object o) (.object o')) : Rel β (.size o) (.size o')
  | item (h : β.rel (.list l) (.list l')) (i : Nat) : Rel β (.item l i) (.item l' i)
  | items (h : β.rel (.list l) (.list l')) : Rel β (.items l) (.items l')
  | length (h : β.rel (.list l) (.list l')) : Rel β (.length l) (.length l')
  | hostObject (h : β.rel (.host i) (.host i')) : Rel β (.hostObject i) (.hostObject i')
  | display (h : Value.Rel β v v') : Rel β (.display v) (.display v')
  | json (h : Value.Rel β v v') : Rel β (.json v) (.json v')
  | number (h : Value.Rel β v v') : Rel β (.number v) (.number v')
  | looseEq (ha : Value.Rel β a a') (hb : Value.Rel β b b') : Rel β (.looseEq a b) (.looseEq a' b')
  | classNames (h : Value.Rel β v v') : Rel β (.classNames v) (.classNames v')
  | styleNames (h : Value.Rel β v v') : Rel β (.styleNames v) (.styleNames v')
  | attributesHtml (h : attrs.Rel (Value.Rel β) attrs') :
      Rel β (.attributesHtml attrs) (.attributesHtml attrs')
  | mergedAttributes (ho : own.Rel (Value.Rel β) own') (hd : defaults.Rel (Value.Rel β) defaults') :
      Rel β (.mergedAttributes own defaults) (.mergedAttributes own' defaults')
  | countAfter (n : Nat) : Rel β (.countAfter n) (.countAfter n)

def Query.AnswerRel (β : Naming) : (q q' : Query) → q.Answer → q'.Answer → Prop
  | .property _ _, .property _ _ => Option.Rel (Value.Rel β)
  | .names _, .names _ => Eq
  | .entries _, .entries _ => Forall₂ (EntryRel (Value.Rel β))
  | .size _, .size _ => Eq
  | .item _ _, .item _ _ => Value.Rel β
  | .items _, .items _ => Forall₂ (Value.Rel β)
  | .length _, .length _ => Eq
  | .hostObject _, .hostObject _ => HostObject.Rel β
  | .display _, .display _ => Eq
  | .json _, .json _ => Eq
  | .number _, .number _ => Eq
  | .looseEq _ _, .looseEq _ _ => Eq
  | .classNames _, .classNames _ => Eq
  | .styleNames _, .styleNames _ => Eq
  | .attributesHtml _, .attributesHtml _ => Eq
  | .mergedAttributes _ _, .mergedAttributes _ _ => Table.Rel (Value.Rel β)
  | .countAfter _, .countAfter _ => Eq
  | _, _ => fun _ _ => False

lemma Query.AnswerRel.mono (hle : ∀ {a b}, β.rel a b → γ.rel a b) {q q' : Query} (hq : q.Rel β q')
    {a : q.Answer} {a' : q'.Answer} (h : q.AnswerRel β q' a a') : q.AnswerRel γ q' a a' := by
  cases hq with
  | property => exact optionRel_imp h fun _ _ => .mono hle
  | entries => exact h.imp fun _ _ he => ⟨he.1, he.2.mono hle⟩
  | item => exact Value.Rel.mono hle h
  | items | mergedAttributes => exact h.imp fun _ _ => .mono hle
  | hostObject => exact HostObject.Rel.mono hle h
  | _ => exact h

lemma exceptRel_eq (h : ExceptRel Eq x x') : x = x' := by
  cases h with
  | ok h => rw [h]
  | error e => rfl

section

variable (hA : Agree β A h h') {q : Query} (hq : q.Rel β q')
include hA hq

lemma Query.sim_reading : Sim β A (AnswerRel β q q') (q.reading h) (q'.reading h') := by
  cases hq with
  | property ho name =>
    refine (Sim.visit (.property ho name)).bind fun _ _ hs => ?_
    exact .pure (hA.property ho hs)
  | names ho =>
    refine (Sim.visit (.iteration ho)).bind fun _ _ hs => ?_
    exact .pure (hA.keys ho hs)
  | entries ho => exact sim_readEntries hA ho
  | @size o o' ho =>
    refine (Sim.visit (.iteration ho)).bind fun _ _ hs => ?_
    have hlen := congrArg List.length (hA.keys ho hs)
    rw [Table.keys, Table.keys, length_map, length_map] at hlen
    exact .pure hlen
  | item hl i =>
    refine (Sim.visit (.item hl i)).bind fun _ _ hs => ?_
    exact .pure (hA.item hl hs)
  | items hl => exact sim_readItems hA hl
  | length hl =>
    refine (Sim.visit (.length hl)).bind fun _ _ hs => ?_
    exact .pure (hA.length hl hs)
  | hostObject hi => exact .pure (hA.hosts _ _ hi)
  | display hv => exact sim_display hA hv
  | json hv => exact (sim_jsonWithin hA hA.nesting .nil hv).imp fun _ _ => exceptRel_eq
  | number hv => exact sim_toNumber hA hv
  | looseEq ha hb => exact sim_looseEq hA ha hb
  | classNames hv => exact sim_classNames hA hv
  | styleNames hv => exact sim_styleNames hA hv
  | attributesHtml ha =>
    exact sim_attributesHtml (fun _ _ => sim_display hA) ha
  | mergedAttributes ho hd =>
    exact sim_mergeAttributes (fun _ _ => sim_display hA) ho hd
  | countAfter n =>
    rw [reading, reading]
    split
    · exact .pure rfl
    · exact .endless

/-- A question is answered alike, up to names, in a heap that agrees on the slots that the answer
looked at. -/
lemma Query.answer_rel (ha : q.answer h = some (a, slots)) (hs : ∀ s ∈ slots, s ∈ A) :
    ∃ a' slots', q'.answer h' = some (a', slots') ∧ AnswerRel β q q' a a' ∧
      Forall₂ (Slot.Rel β) slots slots' := by
  obtain ⟨⟨b, out⟩, hb, hout⟩ := Option.map_eq_some_iff.mp ha
  obtain ⟨rfl, rfl⟩ := Prod.mk.inj hout
  obtain ⟨a', out', ha', haa, hoo⟩ :=
    sim_reading hA hq #[] #[] b out .nil hb fun s hmem => hs s (Array.mem_toList_iff.mpr hmem)
  exact ⟨a', out'.toList, by rw [answer, ha']; rfl, haa, hoo⟩

end

end LiveMarkup
