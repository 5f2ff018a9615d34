import LiveMarkup.Proofs.Machine

/-!
# Two indexes, one story

The registry keeps who subscribed to a slot and, apart from it, what an effect depends on. Recording
a read extends both, forgetting shortens both, and each does so in its own order and with its own
early exits. The indexes nevertheless never disagree: an effect is listed at a slot exactly when the
slot is listed at the effect, nobody is listed twice, and no list of subscribers is left empty.
-/

namespace LiveMarkup

open List Assoc

/-! ## Lists kept at keys -/

namespace Assoc

variable {κ ι : Type}

def keys (m : List (κ × List ι)) : List κ :=
  m.map (·.1)

@[simp]
lemma keys_cons (p : κ × List ι) (m : List (κ × List ι)) : keys (p :: m) = p.1 :: keys m := rfl

variable {m : List (κ × List ι)}

lemma mem_keys_of_mem (h : p ∈ m) : p.1 ∈ keys m := mem_map_of_mem h

lemma nodup_keys_filter (hm : (keys m).Nodup) (keep : κ × List ι → Bool) :
    (keys (m.filter keep)).Nodup :=
  hm.sublist (filter_sublist.map _)

lemma keys_map (m : List (κ × List ι)) (edit : κ → List ι → List ι) :
    keys (m.map fun p => (p.1, edit p.1 p.2)) = keys m := by
  rw [keys, map_map]
  rfl

variable [DecidableEq κ]

lemma get_of_mem (hm : (keys m).Nodup) (h : p ∈ m) : get m p.1 = p.2 := by
  induction m with
  | nil => cases h
  | cons q rest ih =>
    rw [keys_cons, nodup_cons] at hm
    rw [get_cons]
    rcases mem_cons.mp h with rfl | h
    · exact if_pos rfl
    · have hne : p.1 ≠ q.1 := fun heq => hm.1 (heq ▸ mem_keys_of_mem h)
      rw [if_neg hne, ih hm.2 h]

lemma mem_of_mem_get (h : a ∈ get m k) : (k, get m k) ∈ m := by
  induction m with
  | nil => cases h
  | cons p rest ih =>
    rw [get_cons] at h ⊢
    split at h
    · rename_i heq
      rw [if_pos heq, heq]
      exact mem_cons_self
    · rename_i hne
      rw [if_neg hne]
      exact mem_cons_of_mem p (ih h)

lemma keys_push (m : List (κ × List ι)) (k : κ) (a : ι) :
    keys (push m k a) = if k ∈ keys m then keys m else keys m ++ [k] := by
  induction m with
  | nil => rfl
  | cons p rest ih =>
    obtain ⟨k1, as⟩ := p
    rw [push]
    by_cases h : k1 = k
    · simp [h]
    · have hne : k ≠ k1 := Ne.symm h
      rw [if_neg h, keys_cons, ih]
      by_cases hk : k ∈ keys rest <;> simp [hk, hne]

lemma nodup_keys_push (hm : (keys m).Nodup) (k : κ) (a : ι) : (keys (push m k a)).Nodup := by
  rw [keys_push]
  split
  · exact hm
  · rename_i hk
    exact nodup_append.mpr ⟨hm, nodup_singleton k, by
      intro k' hk' k'' hk'' heq
      rw [mem_singleton.mp hk''] at heq
      exact hk (heq ▸ hk')⟩

lemma mem_push (h : p ∈ push m k a) : p ∈ m ∨ p = (k, get m k ++ [a]) := by
  induction m with
  | nil => exact .inr (mem_singleton.mp h)
  | cons q rest ih =>
    obtain ⟨k1, as⟩ := q
    rw [push] at h
    split at h
    case isTrue heq =>
      subst heq
      rcases mem_cons.mp h with rfl | h
      · exact .inr (by rw [get_cons, if_pos rfl])
      · exact .inl (mem_cons_of_mem _ h)
    case isFalse hne =>
      rcases mem_cons.mp h with rfl | h
      · exact .inl mem_cons_self
      · rw [get_cons, if_neg (Ne.symm hne)]
        exact (ih h).imp_left (mem_cons_of_mem _)

lemma get_filter (m : List (κ × List ι)) (keep : κ → Bool) (k : κ) :
    get (m.filter fun p => keep p.1) k = if keep k then get m k else [] := by
  induction m with
  | nil => split <;> rfl
  | cons p rest ih =>
    rw [filter_cons]
    by_cases hp : keep p.1
    · rw [if_pos hp, get_cons, get_cons, ih]
      by_cases hk : k = p.1
      · subst hk
        simp [hp]
      · simp [hk]
    · rw [if_neg hp, ih, get_cons]
      by_cases hk : k = p.1
      · subst hk
        simp [hp]
      · simp [hk]

lemma get_map (m : List (κ × List ι)) (edit : κ → List ι → List ι) (hnil : ∀ k, edit k [] = [])
    (k : κ) : get (m.map fun p => (p.1, edit p.1 p.2)) k = edit k (get m k) := by
  induction m with
  | nil => exact (hnil k).symm
  | cons p rest ih =>
    rw [map_cons, get_cons, get_cons, ih]
    by_cases hk : k = p.1
    · rw [if_pos hk, if_pos hk, hk]
    · rw [if_neg hk, if_neg hk]

end Assoc

/-! ## Taking an effect off the lists -/

namespace Registry

lemma mem_unsubscribe : p ∈ unsubscribe e slots m ↔
      (p ∈ m ∧ p.1 ∉ slots) ∨
      (p.1 ∈ slots ∧ p.2 ≠ [] ∧ ∃ es, (p.1, es) ∈ m ∧ p.2 = es.filter (· ≠ e)) := by
  obtain ⟨s, kept⟩ := p
  rw [unsubscribe, mem_filterMap]
  constructor
  · rintro ⟨⟨s1, es⟩, hmem, hp⟩
    simp only at hp
    split at hp
    case isTrue hin =>
      split at hp
      · cases hp
      · rename_i hfull
        cases hp
        exact .inr ⟨hin, by simpa using hfull, es, hmem, rfl⟩
    case isFalse hout =>
      cases hp
      exact .inl ⟨hmem, hout⟩
  · rintro (⟨hmem, hout⟩ | ⟨hin, hfull, es, hmem, hkept⟩)
    · exact ⟨(s, kept), hmem, by simp [show s ∉ slots from hout]⟩
    · refine ⟨(s, es), hmem, ?_⟩
      have hin' : s ∈ slots := hin
      have hkept' : es.filter (· ≠ e) = kept := hkept.symm
      have hfull' : kept.isEmpty = false := by simpa using hfull
      simp only [if_pos hin', hkept', hfull', Bool.false_eq_true, if_false]

lemma keys_unsubscribe_sublist (e : EffectId) (slots : List Slot)
    (m : List (Slot × List EffectId)) : (keys (unsubscribe e slots m)).Sublist (keys m) := by
  induction m with
  | nil => exact Sublist.refl []
  | cons p rest ih =>
    obtain ⟨s, es⟩ := p
    rw [unsubscribe, filterMap_cons]
    simp only
    split
    · exact ih.cons s
    · rename_i hsome
      -- whatever is kept is kept under its own slot
      have hfst : ∀ q, (if s ∈ slots then
          if (es.filter (· ≠ e)).isEmpty then none else some (s, es.filter (· ≠ e))
        else some (s, es)) = some q → q.1 = s := by
        intro q hq
        split at hq
        · split at hq
          · cases hq
          · cases hq; rfl
        · cases hq; rfl
      rw [Assoc.keys_cons, Assoc.keys_cons, hfst _ hsome]
      exact ih.cons_cons s

/-- Where no slot is kept twice, taking an effect off does what it says: the effect is gone from the
named slots, and nothing else is. -/
lemma mem_get_unsubscribe_iff (hm : (keys m).Nodup) :
    e' ∈ Assoc.get (unsubscribe e slots m) s ↔ e' ∈ Assoc.get m s ∧ ¬ (e' = e ∧ s ∈ slots) := by
  constructor
  · intro h
    have hmem := mem_of_mem_get h
    rcases mem_unsubscribe.mp hmem with ⟨hold, hout⟩ | ⟨hin, -, es, hold, hkept⟩
    · have heq : get m s = get (unsubscribe e slots m) s := get_of_mem hm hold
      exact ⟨heq ▸ h, fun hgone => hout hgone.2⟩
    · have heq : get m s = es := get_of_mem hm hold
      have hkept' : get (unsubscribe e slots m) s = es.filter (· ≠ e) := hkept
      rw [hkept', mem_filter] at h
      exact ⟨heq ▸ h.1, fun hgone => by simp [hgone.1] at h⟩
  · rintro ⟨h, hstays⟩
    by_cases he : e' = e
    · -- the effect itself stays where the slot is not named
      have hout : s ∉ slots := fun hin => hstays ⟨he, hin⟩
      have hmem : (s, get m s) ∈ unsubscribe e slots m :=
        mem_unsubscribe.mpr (.inl ⟨mem_of_mem_get h, hout⟩)
      have hnodup := hm.sublist (keys_unsubscribe_sublist e slots m)
      rw [get_of_mem hnodup hmem]
      exact h
    · exact mem_get_unsubscribe he h

lemma dependenciesOf_clearDependencies (r : Registry) (e e' : EffectId) :
    (r.clearDependencies e).dependenciesOf e' = if e' = e then [] else r.dependenciesOf e' := by
  have hget := get_filter r.dependencies (fun k => k ≠ e) e'
  rw [dependenciesOf, clearDependencies, hget]
  by_cases he : e' = e <;> simp [he, dependenciesOf]

lemma subscribersOf_removeTarget (r : Registry) (c : Container) (s : Slot) :
    (r.removeTarget c).subscribersOf s = if s.container = c then [] else r.subscribersOf s := by
  have hget := get_filter r.subscribers (fun k => k.container ≠ c) s
  rw [subscribersOf, removeTarget, hget]
  by_cases hc : s.container = c <;> simp [hc, subscribersOf]

/-! ## Indexes that agree -/

/-- The two indexes tell the same story: an effect is on the list of a slot exactly when the slot is
on the list of the effect. No slot and no effect has two lists, no list names anything twice, and no
list of subscribers is empty. -/
structure Consistent (r : Registry) : Prop where
  agree : ∀ e s, e ∈ r.subscribersOf s ↔ s ∈ r.dependenciesOf e
  slots : (keys r.subscribers).Nodup
  effects : (keys r.dependencies).Nodup
  subscribers_nodup : ∀ p ∈ r.subscribers, p.2.Nodup
  dependencies_nodup : ∀ p ∈ r.dependencies, p.2.Nodup
  subscribers_ne_nil : ∀ p ∈ r.subscribers, p.2 ≠ []

namespace Consistent

variable {r : Registry}

lemma empty : empty.Consistent where
  agree _ _ := ⟨nofun, nofun⟩
  slots := nodup_nil
  effects := nodup_nil
  subscribers_nodup := nofun
  dependencies_nodup := nofun
  subscribers_ne_nil := nofun

section

variable (h : r.Consistent)
include h

lemma nodup_subscribersOf (s : Slot) : (r.subscribersOf s).Nodup := by
  cases hs : r.subscribersOf s with
  | nil => exact nodup_nil
  | cons e rest =>
    have he : e ∈ r.subscribersOf s := hs ▸ mem_cons_self
    exact hs ▸ h.subscribers_nodup _ (mem_of_mem_get he)

lemma nodup_dependenciesOf (e : EffectId) : (r.dependenciesOf e).Nodup := by
  cases hd : r.dependenciesOf e with
  | nil => exact nodup_nil
  | cons s rest =>
    have hs : s ∈ r.dependenciesOf e := hd ▸ mem_cons_self
    exact hd ▸ h.dependencies_nodup _ (mem_of_mem_get hs)

/-- Recording a read: an effect that is listed already stays as it is, and one that is not is put
on both lists. -/
lemma track (e : EffectId) (s : Slot) : (r.track e s).Consistent := by
  rw [Registry.track]
  split
  · exact h
  · rename_i hnew
    have hnew' : s ∉ r.dependenciesOf e := fun hs => hnew ((h.agree e s).mpr hs)
    refine ⟨?_, nodup_keys_push h.slots s e, nodup_keys_push h.effects e s, ?_, ?_, ?_⟩
    · intro e' s'
      have hold := h.agree e' s'
      rw [subscribersOf, dependenciesOf] at hold ⊢
      rw [get_push, get_push]
      by_cases hs : s' = s <;> by_cases he : e' = e <;> simp_all
    · intro p hp
      rcases mem_push hp with hp | rfl
      · exact h.subscribers_nodup p hp
      · exact concat_eq_append ▸ (h.nodup_subscribersOf s).concat hnew
    · intro p hp
      rcases mem_push hp with hp | rfl
      · exact h.dependencies_nodup p hp
      · exact concat_eq_append ▸ (h.nodup_dependenciesOf e).concat hnew'
    · intro p hp
      rcases mem_push hp with hp | rfl
      · exact h.subscribers_ne_nil p hp
      · simp

/-- Forgetting what an effect depends on: its list names every slot that it has to be taken off. -/
lemma clearDependencies (e : EffectId) : (r.clearDependencies e).Consistent := by
  refine ⟨?_, ?_, nodup_keys_filter h.effects _, ?_, ?_, ?_⟩
  · intro e' s
    have hsubs : e' ∈ (r.clearDependencies e).subscribersOf s ↔
        e' ∈ r.subscribersOf s ∧ ¬ (e' = e ∧ s ∈ r.dependenciesOf e) :=
      mem_get_unsubscribe_iff h.slots
    rw [hsubs, dependenciesOf_clearDependencies, h.agree e' s]
    by_cases he : e' = e
    · subst he
      simp
    · simp [he]
  · exact h.slots.sublist (keys_unsubscribe_sublist e _ _)
  · intro p hp
    rcases mem_unsubscribe.mp hp with ⟨hold, -⟩ | ⟨-, -, es, hold, hkept⟩
    · exact h.subscribers_nodup p hold
    · rw [hkept]
      exact (h.subscribers_nodup _ hold).filter _
  · intro p hp
    exact h.dependencies_nodup p (mem_filter.mp hp).1
  · intro p hp
    rcases mem_unsubscribe.mp hp with ⟨hold, -⟩ | ⟨-, hfull, -⟩
    · exact h.subscribers_ne_nil p hold
    · exact hfull

lemma mem_removed_iff :
    e ∈ (r.subscribers.filter (·.1.container = c)).flatMap (·.2) ↔
      ∃ s ∈ r.dependenciesOf e, s.container = c := by
  rw [mem_flatMap]
  constructor
  · rintro ⟨⟨s, es⟩, hp, he⟩
    obtain ⟨hmem, hc⟩ := mem_filter.mp hp
    have hes : r.subscribersOf s = es := get_of_mem h.slots hmem
    exact ⟨s, (h.agree e s).mp (hes ▸ he), by simpa using hc⟩
  · rintro ⟨s, hs, hc⟩
    have he : e ∈ get r.subscribers s := (h.agree e s).mpr hs
    refine ⟨_, mem_filter.mpr ⟨mem_of_mem_get he, ?_⟩, he⟩
    simpa using hc

/-- Forgetting a container: effects that are not on its lists have none of its slots on theirs, so
that passing them by does no harm. -/
lemma removeTarget (c : Container) : (r.removeTarget c).Consistent := by
  have hdeps : (r.removeTarget c).dependencies =
      r.dependencies.map fun d => (d.1, d.2.filter (·.container ≠ c)) := by
    refine map_congr_left ?_
    intro d hd
    split
    · rfl
    · rename_i hnot
      have hlist : r.dependenciesOf d.1 = d.2 := get_of_mem h.effects hd
      have hall : d.2.filter (·.container ≠ c) = d.2 := by
        rw [filter_eq_self]
        intro s hs
        have hne : s.container ≠ c := fun hc =>
          hnot (h.mem_removed_iff.mpr ⟨s, hlist ▸ hs, hc⟩)
        simpa using hne
      rw [hall]
  refine ⟨?_, nodup_keys_filter h.slots _, ?_, ?_, ?_, ?_⟩
  · intro e s
    have hlist : (r.removeTarget c).dependenciesOf e =
        (r.dependenciesOf e).filter (·.container ≠ c) := by
      rw [dependenciesOf, hdeps]
      exact get_map r.dependencies (fun _ l => l.filter (·.container ≠ c)) (fun _ => rfl) e
    rw [subscribersOf_removeTarget, hlist, mem_filter, ← h.agree e s]
    by_cases hc : s.container = c <;> simp [hc]
  · rw [hdeps, keys_map r.dependencies fun _ l => l.filter (·.container ≠ c)]
    exact h.effects
  · intro p hp
    exact h.subscribers_nodup p (mem_filter.mp hp).1
  · intro p hp
    rw [hdeps] at hp
    obtain ⟨d, hd, rfl⟩ := mem_map.mp hp
    exact (h.dependencies_nodup d hd).filter _
  · intro p hp
    exact h.subscribers_ne_nil p (mem_filter.mp hp).1

end

end Consistent

/-! ## Any sequence of changes -/

/-- What can happen to the registry, and to the choice of the effect that reads are recorded for. -/
inductive Action where
  | track (s : Slot)
  | clearDependencies (e : EffectId)
  | removeTarget (c : Container)
  | activate (e : Option EffectId)

def Action.apply (w : World S) : Action → World S
  | .track s => w.track s
  | .clearDependencies e => { w with registry := w.registry.clearDependencies e }
  | .removeTarget c => { w with registry := w.registry.removeTarget c }
  | .activate e => { w with active := e }

lemma Action.consistent_apply (h : w.registry.Consistent) (a : Action) :
    (a.apply w).registry.Consistent := by
  cases a with
  | track s =>
    rw [apply, World.track]
    split
    · exact h
    · exact h.track _ s
  | clearDependencies e => exact h.clearDependencies e
  | removeTarget c => exact h.removeTarget c
  | activate e => exact h

lemma Action.consistent_foldl (h : w.registry.Consistent) (actions : List Action) :
    (actions.foldl Action.apply w).registry.Consistent := by
  induction actions generalizing w with
  | nil => exact h
  | cons a rest ih => exact ih (a.consistent_apply h)

/-- Whatever is recorded and forgotten, and for whichever effects, the indexes agree. -/
theorem indexes_agree (x : S.State) (actions : List Action) :
    (actions.foldl Action.apply ({ state := x } : World S)).registry.Consistent :=
  Action.consistent_foldl .empty actions

end Registry

end LiveMarkup
