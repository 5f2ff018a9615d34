import LiveMarkup.Proofs.Notifying

/-!
# Whom a change of a list tells

A change of a list puts some items in the place of others. Unless one item takes the place of
another, all that stand behind it move, up to the end of the longer one of the two lists, and the
length changes. There is a round for each of these positions, from the front to the back, and a last
one for the length.
-/

namespace LiveMarkup

open World List
open Moment (code turns)

variable {S : Signature} {α β : Type} {sem : Semantics S} {asks : Query → Prop}

/-- There is one round for each of the slots, in their order, and in each round those run who depend
on the slot when it begins, each once. -/
inductive Semantics.Rounds (sem : Semantics S) (k : Pending S Unit) :
    List Slot → World S → World S → Prop
  | done (w : World S) : Rounds sem k [] w w
  | round {s : Slot} {slots : List Slot} {w w' w'' : World S}
      (first : sem.Tours (.turns [] (s :: slots) k w) (w.readers s) (.turns [] slots k w'))
      (once : (w.readers s).Nodup) (rest : Rounds sem k slots w' w'') :
      Rounds sem k (s :: slots) w w''

lemma World.AtRest.rounds (hw : w.AtRest sem asks) (hq : w.heap.Answers asks)
    (slots : List Slot) (k : Pending S Unit) :
    ∃ w', sem.Rounds k slots w w' ∧ w'.heap = w.heap := by
  induction slots generalizing w with
  | nil => exact ⟨w, .done w, rfl⟩
  | cons s rest ih =>
    obtain ⟨w1, hfirst, hstays⟩ := hw.round hq s rest k
    obtain ⟨w', hrest, hheap⟩ := ih (hw.stays hstays) (hstays.answers hq)
    exact ⟨w', .round hfirst (hw.nodup_readers s) hrest, hheap.trans (hstays.kept id).1⟩

namespace Update

variable {items : List Value} {u : Update} {c : Splice} {l : ListId}

/-- Only a write to a position that is there leaves the length as it is. -/
lemma length_splice_iff (hu : u.container = .list l) (hc : u.splice? items = some c) :
    (c.apply items).length = items.length ↔
      ∃ i v, u = .setItem l i v ∧ i < items.length ∧ c.start = i := by
  constructor
  · intro hlen
    obtain ⟨hdropped, hinserted⟩ := (splice?_eq_some hc).2.2 hlen
    cases u with
    | setItem l i v =>
      cases hu
      obtain ⟨-, hc⟩ := Option.ite_none_left_eq_some.mp hc
      cases hc
      simp [Splice.apply] at hlen
      exact ⟨i, v, rfl, by omega, Nat.min_eq_left (by omega)⟩
    | set | remove => cases hu
    | push | insertItem =>
      cases hc
      cases hdropped
    | pop | clear =>
      obtain ⟨-, hc⟩ := Option.ite_none_left_eq_some.mp hc
      cases hc
      cases hinserted
    | removeItem =>
      obtain ⟨-, hc⟩ := Option.ite_none_right_eq_some.mp hc
      cases hc
      cases hinserted
  · rintro ⟨i, v, rfl, hlt, -⟩
    obtain ⟨-, hc⟩ := Option.ite_none_left_eq_some.mp hc
    cases hc
    simp [Splice.apply]
    omega

end Update

/-- **A change of a list tells those who read what it affects.** At a moment outside any run of an
effect, while the bodies of all effects only look: a change that finds nothing to change tells
nobody. A write to a position that is there tells those who depend on that position. Any other change
tells those who depend on a position from the first one affected to the end of the longer list, in
this order, and then those who depend on the length. Who is not told would read what was there
before. -/
theorem Semantics.list_change_tells_affected (sem : Semantics S) (p : Program S α) (x : S.State)
    {n : Nat} {m : Moment S} (hm : sem.after (.code p .nothing { state := x }) n = some m)
    (hidle : m.running = []) (asks : Query → Prop)
    (hbodies : ∀ e c, m.world.effectBody e = some c → (sem c).Observes sem asks False)
    {l : ListId} (hl : l.index < m.world.heap.lists.size) (u : Update) (hu : u.container = .list l)
    {items items' : List Value} {h' : Heap} (hitems : m.world.heap.items l = items)
    (hh' : (u.apply m.world.heap).2.1 = h') (hitems' : h'.items l = items')
    (hq : h'.Answers asks) (next : u.Result → Program S β) (k : Pending S β) :
    ∃ slots w', (code (.step (.write u) next) k m.world).next sem =
        some (.turns [] slots (.goOn (fun _ => next (u.apply m.world.heap).1) k)
          { m.world with heap := h' }) ∧
      sem.Rounds (.goOn (fun _ => next (u.apply m.world.heap).1) k) slots
        { m.world with heap := h' } w' ∧
      w'.heap = h' ∧
      (u.splice? items = none → slots = [] ∧ h' = m.world.heap) ∧
      (∀ c, u.splice? items = some c → items' = c.apply items ∧
        if items'.length = items.length then
          (∃ i v, u = .setItem l i v ∧ i < items.length ∧ c.start = i) ∧ slots = [.item l c.start]
        else slots = (range' c.start (max items.length items'.length - c.start)).map (.item l) ++
          [.length l]) ∧
      ∀ j, items'.getD j .undefined ≠ items.getD j .undefined → .item l j ∈ slots := by
  have hrest : m.world.AtRest sem asks := atRest_after hm hidle hbodies
  subst hitems hh' hitems'
  obtain ⟨w', hrounds, hheap⟩ := (hrest.withHeap _).rounds hq (u.apply m.world.heap).2.2
    (.goOn (fun _ => next (u.apply m.world.heap).1) k)
  have happly := Update.apply_list hu m.world.heap
  refine ⟨_, w', rfl, hrounds, hheap, ?_, ?_, ?_⟩
  · intro hnone
    rw [hnone] at happly
    rw [happly]
    exact ⟨rfl, rfl⟩
  · intro c hc
    have hnew : (u.apply m.world.heap).2.1.items l = c.apply (m.world.heap.items l) := by
      rw [happly, hc]
      simp [Heap.items, Heap.setItems, Array.getD_eq_getD_getElem?, hl]
    refine ⟨hnew, ?_⟩
    rw [hnew, happly, hc]
    split
    case isTrue hlen => exact ⟨(Update.length_splice_iff hu hc).mp hlen, if_pos hlen⟩
    case isFalse hlen => exact if_neg hlen
  · intro j hj
    by_contra hmem
    exact hj ((Update.unchanged_of_list hu hmem).1 j rfl)

namespace Watcher

/-- Children look at the second item, and the others at the length. -/
def survey : Semantics Watcher
  | .child => .step (.read (.item ⟨0⟩ 1)) fun _ => .done ()
  | _ => .step (.read (.length ⟨0⟩)) fun _ => .done ()

def queue : Program Watcher Unit := do
  let _ ← Program.newList [.text "a", .text "b"]
  let _ ← Program.perform (S := Watcher) (.spawn .child)
  let _ ← Program.perform (S := Watcher) (.spawn .hidden)

lemma observes_survey (c : Watcher.Code) : (survey c).Observes survey Answerable False := by
  cases c <;> exact .look (fun _ => ⟨_, rfl⟩) fun _ => .done ()

/-- A new first item moves both items and the end of the list. -/
theorem list_change_tells_affected_queue :
    ∃ m w', survey.after (.code queue .nothing { state := () }) 13 = some m ∧ m.running = [] ∧
      m.world.readers (.item ⟨0⟩ 1) = [⟨0⟩] ∧ m.world.readers (.length ⟨0⟩) = [⟨1⟩] ∧
      survey.Rounds (.goOn (fun _ => .done ()) .nothing)
        [.item ⟨0⟩ 0, .item ⟨0⟩ 1, .item ⟨0⟩ 2, .length ⟨0⟩]
        { m.world with heap := ((Update.insertItem ⟨0⟩ 0 .null).apply m.world.heap).2.1 } w' := by
  have hchecks : ((survey.after (.code queue .nothing { state := () }) 13).any fun m =>
      m.running.isEmpty && decide (0 < m.world.heap.lists.size) &&
        decide (m.world.readers (.item ⟨0⟩ 1) = [⟨0⟩]) &&
        decide (m.world.readers (.length ⟨0⟩) = [⟨1⟩]) &&
        decide ((m.world.heap.items ⟨0⟩).length = 2)) = true := by
    decide +kernel
  obtain ⟨m, hm, hchecks⟩ := (Option.any_eq_true _ _).mp hchecks
  simp only [Bool.and_eq_true, decide_eq_true_eq, List.isEmpty_iff] at hchecks
  obtain ⟨⟨⟨⟨hidle, hsize⟩, hitem⟩, hlength⟩, hlen⟩ := hchecks
  obtain ⟨slots, w', -, hrounds, -, -, hslots, -⟩ := survey.list_change_tells_affected queue () hm
    hidle Answerable (fun _ c _ => observes_survey c) hsize (.insertItem ⟨0⟩ 0 .null) rfl rfl rfl rfl
    (fun q hq => hq _) (fun _ => .done ()) .nothing
  obtain ⟨hnew, hslots⟩ := hslots _ rfl
  rw [hnew] at hslots
  simp [Splice.apply, hlen, range'] at hslots
  rw [hslots] at hrounds
  exact ⟨m, w', hm, hidle, hitem, hlength, hrounds⟩

end Watcher

end LiveMarkup
