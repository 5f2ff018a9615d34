import LiveMarkup.Proofs.Readings

/-!
# How readings end

What a reading visited before it began does not matter to it. So it ends in the same way wherever
it is begun, `Reading.Gives`, or never, `Reading.IsEndless`. A list of readings ends if all of them
do; if they may fail, those behind the first failure are never begun (`Reading.Traversal`).
-/

namespace LiveMarkup

open List

namespace Reading

variable {α β γ : Type}
variable {m : Reading α} {a : α} {xs : List γ}

/-- The reading ends in `a`, whatever was visited before. -/
def Gives (m : Reading α) (a : α) : Prop :=
  ∀ slots, ∃ out, m slots = some (a, out)

def IsEndless (m : Reading α) : Prop :=
  ∀ slots, m slots = none

lemma Gives.pure (a : α) : Gives (Pure.pure a : Reading α) a := fun slots => ⟨slots, rfl⟩

lemma Gives.bind (hm : Gives m a) (hf : Gives (f a) b) : Gives (m >>= f) b := by
  intro slots
  obtain ⟨mid, hmid⟩ := hm slots
  obtain ⟨out, hout⟩ := hf mid
  exact ⟨out, Option.bind_eq_some_iff.mpr ⟨(a, mid), hmid, hout⟩⟩

lemma Gives.bind_isEndless (hm : Gives m a) (hf : IsEndless (f a)) : IsEndless (m >>= f) := by
  intro slots
  obtain ⟨mid, hmid⟩ := hm slots
  show (m slots).bind _ = none
  rw [hmid]
  exact hf mid

lemma IsEndless.bind (hm : IsEndless m) (f : α → Reading β) : IsEndless (m >>= f) := by
  intro slots
  show (m slots).bind _ = none
  rw [hm slots]
  rfl

lemma isEndless_endless : IsEndless (endless : Reading α) := fun _ => rfl

lemma Gives.isSome (h : Gives m a) (slots : Array Slot) : (m slots).isSome = true := by
  obtain ⟨out, hout⟩ := h slots
  rw [hout]
  rfl

lemma IsEndless.isSome (h : IsEndless m) (slots : Array Slot) : (m slots).isSome = false := by
  rw [h slots]
  rfl

lemma Gives.not_isEndless (h : Gives m a) : ¬ IsEndless m := by
  intro hend
  obtain ⟨out, hout⟩ := h #[]
  rw [hend] at hout
  cases hout

lemma Gives.unique (ha : Gives m a) (hb : Gives m b) : a = b := by
  obtain ⟨out, hout⟩ := ha #[]
  obtain ⟨out', hout'⟩ := hb #[]
  rw [hout] at hout'
  cases hout'
  rfl

lemma gives_readItems (h : Heap) (l : ListId) : Gives (h.readItems l) (h.items l) :=
  fun slots => ⟨_, Heap.readItems_apply h l slots⟩

lemma gives_readEntries (h : Heap) (o : ObjectId) : Gives (h.readEntries o) (h.fields o).entries :=
  fun slots => ⟨_, Heap.readEntries_apply h o slots⟩

lemma gives_mapM (hf : ∀ x ∈ xs, Gives (f x) (g x)) : Gives (xs.mapM f) (xs.map g) := by
  induction xs with
  | nil => exact .pure _
  | cons x xs ih =>
    obtain ⟨hx, hxs⟩ := forall_mem_cons.mp hf
    rw [mapM_cons]
    exact hx.bind ((ih hxs).bind (.pure _))

lemma mapM_cases (hf : ∀ x ∈ xs, (∃ a, Gives (f x) a) ∨ IsEndless (f x)) :
    ((∃ as, Gives (xs.mapM f) as) ∧ ∀ x ∈ xs, ∃ a, Gives (f x) a) ∨
      IsEndless (xs.mapM f) ∧ ∃ x ∈ xs, IsEndless (f x) := by
  induction xs with
  | nil => exact .inl ⟨⟨[], .pure _⟩, nofun⟩
  | cons x xs ih =>
    obtain ⟨hx, hxs⟩ := forall_mem_cons.mp hf
    rw [mapM_cons]
    obtain ⟨a, ha⟩ | hend := hx
    · obtain ⟨⟨as, has⟩, hall⟩ | ⟨hend, y, hy, hyend⟩ := ih hxs
      · exact .inl ⟨⟨a :: as, ha.bind (has.bind (.pure _))⟩, forall_mem_cons.mpr ⟨⟨a, ha⟩, hall⟩⟩
      · exact .inr ⟨ha.bind_isEndless (hend.bind _), y, mem_cons_of_mem _ hy, hyend⟩
    · exact .inr ⟨hend.bind _, x, mem_cons_self, hend⟩

/-! ## Readings that may fail -/

open Heap (JsonReading)

lemma Gives.run_bind {m : JsonReading α} (hm : Gives m.run (.ok a)) (hf : Gives (f a).run r) :
    Gives (m >>= f).run r := by
  exact Gives.bind hm hf

lemma Gives.run_bind_error {m : JsonReading α} (hm : Gives m.run (.error e))
    (f : α → JsonReading β) : Gives (m >>= f).run (.error e) := by
  exact Gives.bind hm (.pure _)

lemma Gives.run_bind_isEndless {m : JsonReading α} (hm : Gives m.run (.ok a))
    (hf : IsEndless (f a).run) : IsEndless (m >>= f).run := by
  exact Gives.bind_isEndless hm hf

lemma IsEndless.run_bind (hm : IsEndless m.run) (f : α → JsonReading β) :
    IsEndless (m >>= f).run := by
  exact hm.bind _

lemma Gives.run_lift (hm : Gives m a) : Gives (ExceptT.lift m : JsonReading α).run (.ok a) :=
  Gives.bind (f := fun a => Pure.pure (Except.ok a)) hm (.pure _)

/-- How a list of readings ends: in all their results, or with the first of them that fails or
never ends. -/
inductive Traversal (f : γ → JsonReading α) (xs : List γ) : Prop
  | ok (as : List α) (hall : Forall₂ (fun x a => Gives (f x).run (.ok a)) xs as)
      (hgives : Gives (xs.mapM f).run (.ok as))
  | error (before : List γ) (x : γ) (after : List γ) (e : ValueError)
      (hxs : xs = before ++ x :: after) (hbefore : ∀ y ∈ before, ∃ a, Gives (f y).run (.ok a))
      (hx : Gives (f x).run (.error e)) (hgives : Gives (xs.mapM f).run (.error e))
  | endless (before : List γ) (x : γ) (after : List γ)
      (hxs : xs = before ++ x :: after) (hbefore : ∀ y ∈ before, ∃ a, Gives (f y).run (.ok a))
      (hx : IsEndless (f x).run) (hendless : IsEndless (xs.mapM f).run)

lemma exists_gives_of_forall₂ {f : γ → JsonReading α}
    (hall : Forall₂ (fun x a => Gives (f x).run (.ok a)) xs as) :
    ∀ x ∈ xs, ∃ a, Gives (f x).run (.ok a) :=
  ((forall₂_and_left _ _).mp (hall.imp fun _ a ha => ⟨⟨a, ha⟩, ha⟩)).1

lemma traversal {f : γ → JsonReading α}
    (hf : ∀ x ∈ xs, (∃ r, Gives (f x).run r) ∨ IsEndless (f x).run) : Traversal f xs := by
  induction xs with
  | nil => exact .ok [] .nil (.pure _)
  | cons x xs ih =>
    obtain ⟨hx, hxs⟩ := forall_mem_cons.mp hf
    obtain ⟨r, hr⟩ | hend := hx
    · cases r with
      | error e =>
        refine .error [] x xs e rfl nofun hr ?_
        rw [mapM_cons]
        exact hr.run_bind_error _
      | ok a =>
        obtain ⟨as, hall, hgives⟩ | ⟨before, y, after, e, rfl, hbefore, hy, hgives⟩ |
          ⟨before, y, after, rfl, hbefore, hy, hend⟩ := ih hxs
        · refine .ok (a :: as) (.cons hr hall) ?_
          rw [mapM_cons]
          exact hr.run_bind (hgives.run_bind (.pure _))
        · refine .error (x :: before) y after e rfl (forall_mem_cons.mpr ⟨⟨a, hr⟩, hbefore⟩) hy ?_
          rw [mapM_cons]
          exact hr.run_bind (hgives.run_bind_error _)
        · refine .endless (x :: before) y after rfl (forall_mem_cons.mpr ⟨⟨a, hr⟩, hbefore⟩) hy ?_
          rw [mapM_cons]
          exact hr.run_bind_isEndless (hend.run_bind _)
    · refine .endless [] x xs rfl nofun hend ?_
      rw [mapM_cons]
      exact hend.run_bind _

end Reading

end LiveMarkup
