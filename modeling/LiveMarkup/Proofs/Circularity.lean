import LiveMarkup.Heap.Reading
import Mathlib.Data.List.Perm.Basic
import Mathlib.Logic.Relation

/-!
# Ways through the heap

Lists, objects and bags refer to each other in any way they like, so whoever goes through the heap
has to watch for the way back. `Heap.Circular` says that a way through lists and objects leads to
a container and from there to the same container again; `Heap.ComesRound` says the same from the
point of view of somebody who goes along one path and remembers the containers on it.

A conversion at some place asks for the conversion of others, `Heap.Calls`. Containers on the path
are not entered again, but a bag starts with an empty memory. `Ends` bounds how deep such requests
nest. In a finite heap they nest no deeper than `Heap.nesting`, unless a bag asks for itself again
(`Heap.ComesBack`), and then there is no bound.
-/

namespace LiveMarkup

open List

variable {v : Value}

open Relation

def Value.container? : Value → Option Container
  | .list l => some (.list l)
  | .object o => some (.object o)
  | _ => none

def Value.isLeaf : Value → Bool
  | .list _ | .object _ | .host _ => false
  | _ => true

lemma Value.container?_of_isLeaf (h : v.isLeaf = true) : v.container? = none := by
  cases v <;> first | rfl | cases h

lemma Value.container?_inj (hv : v.container? = some c) (hw : w.container? = some c) : v = w := by
  cases v <;> cases hv <;> cases w <;> cases hw <;> rfl

namespace Heap

/-- The values that stand in a container: items of a list, entries of an object. -/
def contents (h : Heap) : Container → List Value
  | .list l => h.items l
  | .object o => (h.fields o).entries.map Prod.snd

def Part (h : Heap) (v w : Value) : Prop :=
  ∃ c, v.container? = some c ∧ w ∈ h.contents c

/-- The value leads to a container that leads to itself. -/
def Circular (h : Heap) (v : Value) : Prop :=
  ∃ x, ReflTransGen h.Part v x ∧ TransGen h.Part x x

/-! ## Coming round -/

/-- Going on from a value, with the containers of `seen` behind, some path comes to a container
that it has passed before. -/
inductive ComesRound (h : Heap) : List Container → Value → Prop
  | here {seen : List Container} {v : Value} {c : Container} (hc : v.container? = some c)
      (hseen : c ∈ seen) : ComesRound h seen v
  | inside {seen : List Container} {v w : Value} {c : Container} (hc : v.container? = some c)
      (hw : w ∈ h.contents c) (hround : ComesRound h (c :: seen) w) : ComesRound h seen v

variable {h : Heap}

lemma not_comesRound_of_container? (hv : v.container? = none) : ¬ h.ComesRound seen v := by
  rintro (⟨hc, -⟩ | ⟨hc, -, -⟩) <;> rw [hv] at hc <;> cases hc

lemma comesRound_iff (hc : v.container? = some c) :
    h.ComesRound seen v ↔ c ∈ seen ∨ ∃ w ∈ h.contents c, h.ComesRound (c :: seen) w := by
  constructor
  · rintro (⟨hc', hseen⟩ | ⟨hc', hw, hround⟩)
    all_goals obtain rfl := Option.some.inj (hc.symm.trans hc')
    · exact .inl hseen
    · exact .inr ⟨_, hw, hround⟩
  · rintro (hseen | ⟨w, hw, hround⟩)
    · exact .here hc hseen
    · exact .inside hc hw hround

/-- A path that comes round has met a container from before it began, or closes a circle. -/
lemma ComesRound.cases (hround : h.ComesRound seen v) :
    (∃ x c, ReflTransGen h.Part v x ∧ x.container? = some c ∧ c ∈ seen) ∨ h.Circular v := by
  induction hround with
  | @here seen v c hc hseen => exact .inl ⟨v, c, .refl, hc, hseen⟩
  | @inside seen v w c hc hw _ ih =>
    have hpart : h.Part v w := ⟨c, hc, hw⟩
    obtain ⟨x, d, hx, hd, hmem⟩ | ⟨x, hx, hcycle⟩ := ih
    · rcases mem_cons.mp hmem with rfl | hmem
      · obtain rfl := Value.container?_inj hc hd
        exact .inr ⟨v, .refl, TransGen.head' hpart hx⟩
      · exact .inl ⟨x, d, .head hpart hx, hd, hmem⟩
    · exact .inr ⟨x, .head hpart hx, hcycle⟩

lemma not_comesRound_part (hround : ¬ h.ComesRound seen v) (hpart : h.Part v w) :
    ∃ c, v.container? = some c ∧ ¬ h.ComesRound (c :: seen) w := by
  obtain ⟨c, hc, hw⟩ := hpart
  exact ⟨c, hc, fun hw' => hround (.inside hc hw hw')⟩

lemma exists_not_comesRound (hround : ¬ h.ComesRound seen v) (hreach : ReflTransGen h.Part v w) :
    ∃ seen', seen ⊆ seen' ∧ ¬ h.ComesRound seen' w := by
  induction hreach with
  | refl => exact ⟨seen, Subset.refl _, hround⟩
  | tail _ hpart ih =>
    obtain ⟨seen', hsub, hnot⟩ := ih
    obtain ⟨c, -, hnot⟩ := not_comesRound_part hnot hpart
    exact ⟨c :: seen', subset_cons_of_subset _ hsub, hnot⟩

lemma comesRound_nil_iff : h.ComesRound [] v ↔ h.Circular v := by
  constructor
  · intro hround
    obtain ⟨x, c, -, -, hmem⟩ | hcircular := hround.cases
    · cases hmem
    · exact hcircular
  · rintro ⟨x, hreach, hcycle⟩
    by_contra hround
    obtain ⟨seen, -, hnot⟩ := exists_not_comesRound hround hreach
    obtain ⟨y, hpart, hback⟩ := TransGen.head'_iff.mp hcycle
    obtain ⟨c, hc, hnot⟩ := not_comesRound_part hnot hpart
    obtain ⟨seen', hsub, hnot⟩ := exists_not_comesRound hnot hback
    exact hnot (.here hc (hsub mem_cons_self))

end Heap

/-! ## Requests that end -/

/-- Requests from `a` on nest less than `n` deep. -/
def Ends {σ : Type} (R : σ → σ → Prop) : Nat → σ → Prop
  | 0, _ => False
  | n + 1, a => ∀ b, R a b → Ends R n b

namespace Ends

variable {a : σ}

section

variable (h : Ends R n a)
include h

lemma succ : Ends R (n + 1) a := by
  induction n generalizing a with
  | zero => cases h
  | succ n ih => exact fun b hab => ih (h b hab)

lemma mono (hle : n ≤ m) : Ends R m a := by
  induction hle with
  | refl => exact h
  | step _ ih => exact ih.succ

lemma of_transGen (hab : TransGen R a b) : ∃ m < n, Ends R m b := by
  induction hab with
  | single hab =>
    cases n with
    | zero => cases h
    | succ n => exact ⟨n, n.lt_succ_self, h _ hab⟩
  | tail _ hbc ih =>
    obtain ⟨m, hm, hb⟩ := ih
    cases m with
    | zero => cases hb
    | succ m => exact ⟨m, by omega, hb _ hbc⟩

lemma of_reflTransGen (hab : ReflTransGen R a b) : Ends R n b := by
  rcases reflTransGen_iff_eq_or_transGen.mp hab with rfl | hab
  · exact h
  · obtain ⟨m, hm, hb⟩ := h.of_transGen hab
    exact hb.mono (Nat.le_of_lt hm)

lemma not_transGen : ¬ TransGen R a a := by
  induction n using Nat.strongRecOn with
  | ind n ih =>
    intro hcycle
    obtain ⟨m, hm, ha⟩ := h.of_transGen hcycle
    exact ih m hm ha hcycle

end

end Ends

/-- Where a conversion stands: at a value, with the containers that it is inside of. -/
structure Place where
  seen : List Container
  value : Value

namespace Heap

/-- A conversion at one place asks for the conversion at another. A container that it is not inside
of yet is gone through in the order of `reads`, up to the first value that `stops` the conversion.
A bag asks for all its attributes and forgets what is around it. -/
inductive Calls (h : Heap) (reads : Container → List Value)
    (stops : List Container → Value → Prop) : Place → Place → Prop
  | inside {seen : List Container} {v w : Value} {c : Container} {before after : List Value}
      (hc : v.container? = some c) (hseen : c ∉ seen) (hreads : reads c = before ++ w :: after)
      (hstops : ∀ x ∈ before, ¬ stops (c :: seen) x) :
      Calls h reads stops ⟨seen, v⟩ ⟨c :: seen, w⟩
  | ofBag {seen : List Container} {i : HostId} {attrs : Table Value} {e : String × Value}
      (hbag : h.hostObject i = .bag attrs) (he : e ∈ attrs.entries) :
      Calls h reads stops ⟨seen, .host i⟩ ⟨[], e.2⟩

/-- The conversion of a value comes to a bag, and from there to the same bag again. -/
def ComesBack (R : Place → Place → Prop) (v : Value) : Prop :=
  ∃ i seen seen', ReflTransGen R ⟨[], v⟩ ⟨seen, .host i⟩ ∧
    TransGen R ⟨seen, .host i⟩ ⟨seen', .host i⟩

def containers (h : Heap) : List Container :=
  (List.range h.objects.size).map (.object ⟨·⟩) ++ (List.range h.lists.size).map (.list ⟨·⟩)

lemma length_containers (h : Heap) : h.containers.length = h.objects.size + h.lists.size := by
  simp [containers]

lemma mem_containers {h : Heap} (hc : h.contents c ≠ []) : c ∈ h.containers := by
  cases c with
  | list l =>
    have hlt : l.index < h.lists.size := by
      by_contra hge
      exact hc (by simp [contents, items, Array.getD, hge])
    exact mem_append_right _ (mem_map.mpr ⟨l.index, mem_range.mpr hlt, rfl⟩)
  | object o =>
    have hlt : o.index < h.objects.size := by
      by_contra hge
      exact hc (by simp [contents, fields, Array.getD, hge, Table.empty])
    exact mem_append_left _ (mem_map.mpr ⟨o.index, mem_range.mpr hlt, rfl⟩)

def hostIds (h : Heap) : List HostId :=
  (List.range h.hosts.size).map (⟨·⟩)

lemma length_hostIds (h : Heap) : h.hostIds.length = h.hosts.size := by
  simp [hostIds]

lemma mem_hostIds {h : Heap} (hbag : h.hostObject i = .bag attrs) : i ∈ h.hostIds := by
  have hlt : i.index < h.hosts.size := by
    by_contra hge
    simp [hostObject, Array.getD, hge] at hbag
  exact mem_map.mpr ⟨i.index, mem_range.mpr hlt, rfl⟩

section Nesting

variable {h : Heap} {reads : Container → List Value}

lemma Calls.of_host (hcall : h.Calls reads stops ⟨seen, .host i⟩ p) :
    h.Calls reads stops ⟨seen', .host i⟩ p := by
  cases hcall with
  | inside hc => cases hc
  | ofBag hbag he => exact .ofBag hbag he

lemma ends_of_isLeaf (hv : v.isLeaf = true) (n : Nat) (seen : List Container) :
    Ends (h.Calls reads stops) (n + 1) ⟨seen, v⟩ := by
  intro q hcall
  cases hcall with
  | inside hc =>
    rw [Value.container?_of_isLeaf hv] at hc
    cases hc
  | ofBag => cases hv

lemma ends_of_mem_seen (hc : v.container? = some c) (hseen : c ∈ seen) (n : Nat) :
    Ends (h.Calls reads stops) (n + 1) ⟨seen, v⟩ := by
  intro q hcall
  cases hcall with
  | inside hc' hnew =>
    cases hc.symm.trans hc'
    exact absurd hseen hnew
  | ofBag => cases hc

lemma ends_of_not_bag (hplain : ∀ attrs, h.hostObject i ≠ .bag attrs) (n : Nat)
    (seen : List Container) : Ends (h.Calls reads stops) (n + 1) ⟨seen, .host i⟩ := by
  intro q hcall
  cases hcall with
  | inside hc => cases hc
  | ofBag hbag => exact absurd hbag (hplain _)

lemma calls_host_iff (hbag : h.hostObject i = .bag attrs) (seen : List Container) (q : Place) :
    h.Calls reads stops ⟨seen, .host i⟩ q ↔ ∃ e ∈ attrs.entries, ⟨[], e.2⟩ = q := by
  constructor
  · intro hcall
    cases hcall with
    | inside hc => cases hc
    | ofBag hbag' he =>
      cases hbag.symm.trans hbag'
      exact ⟨_, he, rfl⟩
  · rintro ⟨e, he, rfl⟩
    exact .ofBag hbag he

lemma not_comesBack_of_ends (hends : Ends (h.Calls reads stops) n ⟨[], v⟩) :
    ¬ ComesBack (h.Calls reads stops) v := by
  rintro ⟨i, seen, seen', hreach, hback⟩
  obtain ⟨p, hcall, hrest⟩ := TransGen.head'_iff.mp hback
  have hcycle : TransGen (h.Calls reads stops) ⟨seen', .host i⟩ ⟨seen', .host i⟩ :=
    TransGen.head' hcall.of_host hrest
  exact ((hends.of_reflTransGen hreach).of_reflTransGen hback.to_reflTransGen).not_transGen hcycle

section

variable (hreads : ∀ c, reads c ≠ [] → c ∈ h.containers)
include hreads

/-- The bags on the way from `v` to a place are all different if the conversion of `v` never comes
back, and so are the containers since the last of them. Each request adds to one or the other. -/
lemma ends_of_not_comesBack_of_le {v : Value} (hback : ¬ ComesBack (h.Calls reads stops) v)
    (bags : List HostId) (hreach : ReflTransGen (h.Calls reads stops) ⟨[], v⟩ p) (hbags : ∀ i ∈
    bags, i ∈ h.hostIds ∧ ∃ seen, ReflTransGen (h.Calls reads stops) ⟨[], v⟩ ⟨seen, .host i⟩ ∧
      TransGen (h.Calls reads stops) ⟨seen, .host i⟩ p) (hbagsNodup : bags.Nodup)
    (hseen : ∀ c ∈ p.seen, c ∈ h.containers) (hseenNodup : p.seen.Nodup) (hn : (h.hostIds.length -
    bags.length) * (h.containers.length + 2) + (h.containers.length - p.seen.length) < n) :
    Ends (h.Calls reads stops) n p := by
  induction n generalizing p bags with
  | zero => cases hn
  | succ n ih =>
    intro q hcall
    have hreach' := hreach.tail hcall
    have hbags' : ∀ i ∈ bags, i ∈ h.hostIds ∧ ∃ seen,
        ReflTransGen (h.Calls reads stops) ⟨[], v⟩ ⟨seen, .host i⟩ ∧
          TransGen (h.Calls reads stops) ⟨seen, .host i⟩ q := fun i hi =>
      let ⟨hmem, seen, hfrom, hto⟩ := hbags i hi
      ⟨hmem, seen, hfrom, hto.tail hcall⟩
    cases hcall with
    | @inside seen v w c before after hc hnew hsplit hstops =>
      -- One more container since the last bag: the second summand of the bound falls.
      have hmem : c ∈ h.containers := hreads c (by simp [hsplit])
      have hsub : ∀ d ∈ c :: seen, d ∈ h.containers := forall_mem_cons.mpr ⟨hmem, hseen⟩
      have hnodup : (c :: seen).Nodup := nodup_cons.mpr ⟨hnew, hseenNodup⟩
      refine ih bags hreach' hbags' hbagsNodup hsub hnodup ?_
      have hlength := (subperm_of_subset hnodup hsub).length_le
      simp only [length_cons] at hlength hn ⊢
      omega
    | @ofBag seen i attrs e hbag he =>
      -- One more bag, and the guard starts over: the first summand falls by more than the second
      -- can rise.
      have hmem := mem_hostIds hbag
      have hnew : i ∉ bags := fun hi =>
        let ⟨_, seen', hfrom, hto⟩ := hbags i hi
        hback ⟨i, seen', seen, hfrom, hto⟩
      have hnodup : (i :: bags).Nodup := nodup_cons.mpr ⟨hnew, hbagsNodup⟩
      have hsub : ∀ j ∈ i :: bags, j ∈ h.hostIds :=
        forall_mem_cons.mpr ⟨hmem, fun j hj => (hbags j hj).1⟩
      refine ih (i :: bags) hreach'
        (forall_mem_cons.mpr ⟨⟨hmem, seen, hreach, ?_⟩, hbags'⟩) hnodup nofun .nil ?_
      · exact .single (.ofBag hbag he)
      · have hlength := (subperm_of_subset hnodup hsub).length_le
        simp only [length_cons, length_nil] at hlength hn ⊢
        obtain ⟨k, hk⟩ := Nat.exists_eq_add_of_lt hlength
        rw [show h.hostIds.length - bags.length = k + 1 by omega, Nat.add_mul] at hn
        rw [show h.hostIds.length - (bags.length + 1) = k by omega]
        omega

lemma ends_nesting (hback : ¬ ComesBack (h.Calls reads stops) v) :
    Ends (h.Calls reads stops) h.nesting ⟨[], v⟩ := by
  refine ends_of_not_comesBack_of_le hreads hback [] .refl nofun .nil nofun .nil ?_
  simp only [nesting, length_containers, length_hostIds, length_nil, Nat.sub_zero, Nat.add_mul]
  omega

lemma ends_nesting_iff :
    Ends (h.Calls reads stops) h.nesting ⟨[], v⟩ ↔ ¬ ComesBack (h.Calls reads stops) v :=
  ⟨not_comesBack_of_ends, ends_nesting hreads⟩

end

end Nesting

end Heap

end LiveMarkup
