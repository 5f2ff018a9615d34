import LiveMarkup.Proofs.Circularity
import LiveMarkup.Proofs.Endings

/-!
# When values have written forms

Text and JSON are two ways to go through the heap. Text opens lists and bags and passes over a
list that it is already inside of; JSON opens objects too, and fails at a container that it is
already inside of. Either ends exactly if the requests it makes do.

Without host objects, JSON therefore always ends: in the tree of the value, or in a failure exactly
if the value is circular. Bags forget what is around them, and a bag that asks for itself again has
no written form at all.
-/

namespace LiveMarkup

open List Value

variable {h : Heap} {v : Value}

open Relation

/-- Entries of objects that JSON leaves out. -/
def Value.isOmitted : Value → Bool
  | .undefined | .function _ _ => true
  | _ => false

lemma Value.isLeaf_of_isOmitted (h : v.isOmitted = true) : v.isLeaf = true := by
  cases v <;> first | rfl | cases h

namespace Heap

open Reading

/-! ## Text -/

/-- What text goes through: the items of lists. -/
def shownItems (h : Heap) : Container → List Value
  | .list l => h.items l
  | .object _ => []

/-- The requests of texts. Nothing stops a text. -/
abbrev TextCalls (h : Heap) : Place → Place → Prop :=
  h.Calls h.shownItems fun _ _ => False

/-- A reading ends if the requests at its place do, and else not. Leaves that need no request may be
passed over, so requests can nest one deeper than the reading does. -/
def Follows {α : Type} (h : Heap) (n : Nat) (p : Place) (m : Reading α) : Prop :=
  (∃ a, Gives m a) ∧ Ends h.TextCalls (n + 1) p ∨ IsEndless m ∧ ¬ Ends h.TextCalls n p

namespace Follows

variable {γ : Type}

lemma leaf (hv : v.isLeaf = true) (seen : List Container) (a : α) :
    h.Follows n ⟨seen, v⟩ (pure a : Reading α) :=
  .inl ⟨⟨a, .pure a⟩, ends_of_isLeaf hv n seen⟩

variable {m : Reading α}

lemma map (hm : h.Follows n p m) (f : α → β) : h.Follows n p (m >>= fun a => pure (f a)) := by
  obtain ⟨⟨a, ha⟩, hends⟩ | ⟨hend, hnot⟩ := hm
  · exact .inl ⟨⟨f a, ha.bind (.pure _)⟩, hends⟩
  · exact .inr ⟨hend.bind _, hnot⟩

lemma after {f : α → Reading β} {a : α} (hf : h.Follows n p (f a)) (hm : Gives m a) :
    h.Follows n p (m >>= f) := by
  obtain ⟨⟨b, hb⟩, hends⟩ | ⟨hend, hnot⟩ := hf
  · exact .inl ⟨⟨b, hm.bind hb⟩, hends⟩
  · exact .inr ⟨hm.bind_isEndless hend, hnot⟩

lemma mapM {xs : List γ} (place : γ → Place) (hf : ∀ x ∈ xs, h.Follows n (place x) (f x))
    (hcalls : ∀ q, h.TextCalls p q ↔ ∃ x ∈ xs, place x = q) : h.Follows (n + 1) p (xs.mapM f) := by
  obtain ⟨has, hall⟩ | ⟨hend, x, hx, hxend⟩ :=
    mapM_cases fun x hx => (hf x hx).imp And.left And.left
  · refine .inl ⟨has, fun q hq => ?_⟩
    obtain ⟨x, hx, rfl⟩ := (hcalls q).mp hq
    obtain ⟨-, hends⟩ | ⟨hxend, -⟩ := hf x hx
    · exact hends
    · obtain ⟨a, ha⟩ := hall x hx
      exact absurd hxend ha.not_isEndless
  · refine .inr ⟨hend, fun hends => ?_⟩
    obtain ⟨⟨a, ha⟩, -⟩ | ⟨-, hnot⟩ := hf x hx
    · exact absurd hxend ha.not_isEndless
    · exact hnot (hends _ ((hcalls _).mpr ⟨x, hx, rfl⟩))

end Follows

lemma textCalls_list_iff (hnew : .list l ∉ seen) (q : Place) :
    h.TextCalls ⟨seen, .list l⟩ q ↔ ∃ w ∈ h.items l, ⟨.list l :: seen, w⟩ = q := by
  constructor
  · rintro (⟨hc, -, hreads, -⟩ | -)
    cases hc
    have hitems : h.items l = _ := hreads
    exact ⟨_, by simp [hitems], rfl⟩
  · rintro ⟨w, hw, rfl⟩
    obtain ⟨before, after, hsplit⟩ := append_of_mem hw
    exact .inside rfl hnew hsplit fun _ _ => id

lemma follows_attributeHtml {display : Value → Reading String}
    (hv : h.Follows n ⟨[], v⟩ (display v)) (name : String) :
    h.Follows n ⟨[], v⟩ (attributeHtml display name v) := by
  cases v with
  | undefined | null => exact .leaf rfl _ _
  | bool b => cases b <;> exact .leaf rfl _ _
  | _ => exact hv.map _

lemma follows_displayWithin (h : Heap) (n : Nat) (seen : List ListId) (v : Value) :
    h.Follows n ⟨seen.map .list, v⟩ (h.displayWithin n seen v) := by
  induction n generalizing seen v with
  | zero => exact .inr ⟨isEndless_endless, id⟩
  | succ n ih =>
    rw [displayWithin.eq_def]
    cases v with
    | list l =>
      show h.Follows _ _ (if l ∈ seen then _ else _)
      by_cases hin : l ∈ seen
      · rw [if_pos hin]
        exact .inl ⟨⟨_, .pure _⟩, ends_of_mem_seen rfl (mem_map_of_mem hin) _⟩
      · rw [if_neg hin]
        have hnew : Container.list l ∉ seen.map .list := by simpa using hin
        refine .after (.map (.mapM _ (fun w _ => ?_) (textCalls_list_iff hnew)) _)
          (gives_readItems h l)
        cases w with
        | undefined | null => exact .leaf rfl _ _
        | _ => exact ih (l :: seen) _
    | host i =>
      dsimp only
      split
      case h_1 attrs hbag =>
        refine .map (.mapM (fun e => ⟨[], e.2⟩) (fun e _ => ?_) (calls_host_iff hbag _)) _
        exact follows_attributeHtml (ih [] e.2) e.1
      case h_2 hplain => exact .inl ⟨⟨_, .pure _⟩, ends_of_not_bag hplain _ _⟩
    | object o =>
      refine .inl ⟨⟨_, .pure _⟩, ?_⟩
      rintro q (⟨hc, -, hreads, -⟩ | -)
      cases hc
      simp [shownItems] at hreads
    | _ => exact .leaf rfl _ _

/-! ## JSON -/

mutual

/-- The JSON tree of a value: containers are unfolded wherever they stand. -/
inductive Unfolds (h : Heap) : Value → Json → Prop
  | undefined : Unfolds h .undefined .null
  | null : Unfolds h .null .null
  | function (f : FunctionId) (name : String) : Unfolds h (.function f name) .null
  | bool (b : Bool) : Unfolds h (.bool b) (.bool b)
  | number (x : Float) : Unfolds h (.number x) (.ofNumber x)
  | text (s : String) : Unfolds h (.text s) (.text s)
  | list {l : ListId} {items : List Json} (hitems : UnfoldsItems h (h.items l) items) :
      Unfolds h (.list l) (.array items)
  | object (hmembers : UnfoldsMembers h (h.fields o).entries members) :
      Unfolds h (.object o) (.object members)

/-- The trees of items, one by one. -/
inductive UnfoldsItems (h : Heap) : List Value → List Json → Prop
  | nil : UnfoldsItems h [] []
  | cons {v : Value} {vs : List Value} {j : Json} {js : List Json} (hv : Unfolds h v j)
      (hvs : UnfoldsItems h vs js) : UnfoldsItems h (v :: vs) (j :: js)

/-- The trees of entries. Absence and functions are left out. -/
inductive UnfoldsMembers (h : Heap) : List (String × Value) → List (String × Json) → Prop
  | nil : UnfoldsMembers h [] []
  | omitted {k : String} {v : Value} {es : List (String × Value)} {ms : List (String × Json)}
      (hv : v.isOmitted = true) (hes : UnfoldsMembers h es ms) : UnfoldsMembers h ((k, v) :: es) ms
  | kept {k : String} {v : Value} {j : Json} {es : List (String × Value)}
      {ms : List (String × Json)} (hv : v.isOmitted = false) (hj : Unfolds h v j)
      (hes : UnfoldsMembers h es ms) : UnfoldsMembers h ((k, v) :: es) ((k, j) :: ms)

end

lemma unfoldsItems_of_forall₂ (hall : Forall₂ h.Unfolds vs js) : h.UnfoldsItems vs js := by
  induction hall with
  | nil => exact .nil
  | cons hv _ ih => exact .cons hv ih

lemma unfoldsMembers_of_forall₂ (hall : Forall₂ (fun e m => m.1 = e.1 ∧ h.Unfolds e.2 m.2)
    (es.filter fun e => !e.2.isOmitted) ms) : h.UnfoldsMembers es ms := by
  induction es generalizing ms with
  | nil =>
    cases hall
    exact .nil
  | cons e es ih =>
    obtain ⟨k, v⟩ := e
    cases hv : v.isOmitted with
    | true =>
      rw [filter_cons_of_neg (by simp [hv])] at hall
      exact .omitted hv (ih hall)
    | false =>
      rw [filter_cons_of_pos (by simp [hv])] at hall
      cases hall with
      | @cons _ m _ ms hm hall =>
        obtain ⟨k', j⟩ := m
        obtain ⟨rfl, hj⟩ := hm
        exact .kept hv hj (ih hall)

/-- The requests of JSON forms: they stop at the first value that comes round. -/
abbrev FormCalls (h : Heap) : Place → Place → Prop :=
  h.Calls h.contents h.ComesRound

/-- No host object can be reached. -/
def HostFree (h : Heap) (v : Value) : Prop :=
  ∀ i, ¬ ReflTransGen h.Part v (.host i)

lemma HostFree.part (hv : h.HostFree v) (hw : h.Part v w) : h.HostFree w :=
  fun i hreach => hv i (.head hw hreach)

/-- How the reading of a form ends: in a result of the kind `T`, in a failure if the value comes
round, or not at all if its requests do not end. -/
inductive FormOutcome {α : Type} (h : Heap) (n : Nat) (p : Place) (T : α → Prop)
    (m : JsonReading α) : Prop
  | tree (a : α) (hgives : Gives m.run (.ok a)) (hround : ¬ h.ComesRound p.seen p.value)
      (hends : Ends h.FormCalls (n + 1) p) (htree : h.HostFree p.value → T a)
  | circular (hgives : Gives m.run (.error .circular)) (hround : h.ComesRound p.seen p.value)
      (hends : Ends h.FormCalls (n + 1) p)
  | endless (hendless : IsEndless m.run) (hnot : ¬ Ends h.FormCalls n p)

namespace FormOutcome

variable {m : JsonReading α}

section

variable (ho : h.FormOutcome n p T m)
include ho

lemma gives_or_isEndless : (∃ r, Gives m.run r) ∨ IsEndless m.run := by
  obtain ⟨a, hgives, -⟩ | ⟨hgives, -⟩ | ⟨hend, -⟩ := ho
  · exact .inl ⟨_, hgives⟩
  · exact .inl ⟨_, hgives⟩
  · exact .inr hend

lemma of_ok (ha : Gives m.run (.ok a)) :
    ¬ h.ComesRound p.seen p.value ∧ Ends h.FormCalls (n + 1) p ∧ (h.HostFree p.value → T a) := by
  obtain ⟨b, hgives, hround, hends, htree⟩ | ⟨hgives, -⟩ | ⟨hend, -⟩ := ho
  · cases ha.unique hgives
    exact ⟨hround, hends, htree⟩
  · cases ha.unique hgives
  · exact absurd hend ha.not_isEndless

lemma of_error (he : Gives m.run (.error e)) :
    e = .circular ∧ h.ComesRound p.seen p.value ∧ Ends h.FormCalls (n + 1) p := by
  obtain ⟨b, hgives, -⟩ | ⟨hgives, hround, hends⟩ | ⟨hend, -⟩ := ho
  · cases he.unique hgives
  · cases he.unique hgives
    exact ⟨rfl, hround, hends⟩
  · exact absurd hend he.not_isEndless

lemma of_isEndless (hend : IsEndless m.run) : ¬ Ends h.FormCalls n p := by
  obtain ⟨b, hgives, -⟩ | ⟨hgives, -⟩ | ⟨-, hnot⟩ := ho
  · exact absurd hend hgives.not_isEndless
  · exact absurd hend hgives.not_isEndless
  · exact hnot

lemma map (g : α → β) (hT : ∀ a, T a → T' (g a)) :
    h.FormOutcome n p T' (m >>= fun a => pure (g a)) := by
  obtain ⟨a, hgives, hround, hends, htree⟩ | ⟨hgives, hround, hends⟩ | ⟨hend, hnot⟩ := ho
  · exact .tree (g a) (hgives.run_bind (.pure _)) hround hends fun hfree => hT a (htree hfree)
  · exact .circular (hgives.run_bind_error _) hround hends
  · exact .endless (hend.run_bind _) hnot

end

lemma after {l : Reading β} {f : β → JsonReading α} {b : β} (ho : h.FormOutcome n p T (f b))
    (hl : Gives l b) : h.FormOutcome n p T ((ExceptT.lift l : JsonReading β) >>= f) := by
  obtain ⟨a, hgives, hround, hends, htree⟩ | ⟨hgives, hround, hends⟩ | ⟨hend, hnot⟩ := ho
  · exact .tree a (hl.run_lift.run_bind hgives) hround hends htree
  · exact .circular (hl.run_lift.run_bind hgives) hround hends
  · exact .endless (hl.run_lift.run_bind_isEndless hend) hnot

lemma leaf (hv : v.isLeaf = true) (seen : List Container) (ha : T a) :
    h.FormOutcome n ⟨seen, v⟩ T (pure a) :=
  .tree a (.pure _) (not_comesRound_of_container? (container?_of_isLeaf hv))
    (ends_of_isLeaf hv n seen) fun _ => ha

end FormOutcome

lemma exists_split_of_filter {before after : List Value}
    (hsplit : vs.filter keep = before ++ w :: after) :
    ∃ front back, vs = front ++ w :: back ∧ ∀ x ∈ front, x ∈ before ∨ keep x = false := by
  obtain ⟨vs1, vs2, rfl, hbefore, hrest⟩ := filter_eq_append_iff.mp hsplit
  obtain ⟨skipped, back, rfl, hskipped, -, -⟩ := filter_eq_cons_iff.mp hrest
  refine ⟨vs1 ++ skipped, back, by simp, fun x hx => ?_⟩
  rcases mem_append.mp hx with hx | hx
  · cases hkeep : keep x with
    | true => exact .inl (hbefore ▸ mem_filter.mpr ⟨hx, hkeep⟩)
    | false => exact .inr rfl
  · exact .inr (by simpa using hskipped x hx)

section Container

lemma ends_of_contents (hc : v.container? = some c)
    (hcontents : ∀ w ∈ h.contents c, Ends h.FormCalls n ⟨c :: seen, w⟩) :
    Ends h.FormCalls (n + 1) ⟨seen, v⟩ := by
  intro q hcall
  cases hcall with
  | inside hd _ hreads _ =>
    cases hc.symm.trans hd
    exact hcontents _ (by simp [hreads])
  | ofBag => cases hc

lemma ends_of_contents_upto (hc : v.container? = some c)
    (hcontents : h.contents c = front ++ w :: back) (hround : h.ComesRound (c :: seen) w)
    (hfront : ∀ x ∈ front, Ends h.FormCalls n ⟨c :: seen, x⟩)
    (hw : Ends h.FormCalls n ⟨c :: seen, w⟩) : Ends h.FormCalls (n + 1) ⟨seen, v⟩ := by
  intro q hcall
  cases hcall with
  | @inside _ _ x d before after hd _ hreads hstops =>
    cases hc.symm.trans hd
    rw [hcontents] at hreads
    rcases append_eq_append_iff.mp hreads with ⟨mid, rfl, hmid⟩ | ⟨mid, rfl, hmid⟩
    · cases mid with
      | nil =>
        cases hmid
        exact hw
      | cons y mid =>
        cases hmid
        exact absurd hround (hstops w (by simp))
    · cases mid with
      | nil =>
        cases hmid
        exact hw
      | cons y mid =>
        cases hmid
        exact hfront x (by simp)
  | ofBag => cases hc

/-- The forms of what stands in a container make up the form of the container, leaves that are not
kept apart. -/
lemma FormOutcome.container {α γ : Type} (hc : v.container? = some c) (hnew : c ∉ seen)
    {xs : List γ} (val : γ → Value) (keep : Value → Bool) {f : γ → JsonReading α} {T : γ → α → Prop}
    (hxs : xs.map val = (h.contents c).filter keep) (hkeep : ∀ w, keep w = false → w.isLeaf = true)
    (hf : ∀ x ∈ xs, h.FormOutcome n ⟨c :: seen, val x⟩ (T x) (f x)) :
    h.FormOutcome (n + 1) ⟨seen, v⟩ (Forall₂ T xs) (xs.mapM f) := by
  have hmem : ∀ x ∈ xs, val x ∈ h.contents c := fun x hx =>
    mem_of_mem_filter (hxs ▸ mem_map_of_mem hx)
  have hleaf : ∀ w, keep w = false →
      ¬ h.ComesRound (c :: seen) w ∧ Ends h.FormCalls (n + 1) ⟨c :: seen, w⟩ := fun w hw =>
    ⟨not_comesRound_of_container? (container?_of_isLeaf (hkeep w hw)),
      ends_of_isLeaf (hkeep w hw) n _⟩
  -- What stands before the first reading without a result is a leaf or has ended well.
  have hfirst : ∀ {before after : List γ} {x : γ}, xs = before ++ x :: after →
      (∀ y ∈ before, ∃ a, Gives (f y).run (.ok a)) → ∃ front back,
        h.contents c = front ++ val x :: back ∧ ∀ w ∈ front,
          ¬ h.ComesRound (c :: seen) w ∧ Ends h.FormCalls (n + 1) ⟨c :: seen, w⟩ := by
    intro before after x hsplit hbefore
    rw [hsplit, map_append, map_cons] at hxs
    obtain ⟨front, back, hcontents, hfront⟩ := exists_split_of_filter hxs.symm
    refine ⟨front, back, hcontents, fun w hw => ?_⟩
    rcases hfront w hw with hw | hw
    · obtain ⟨y, hy, rfl⟩ := mem_map.mp hw
      obtain ⟨a, ha⟩ := hbefore y hy
      obtain ⟨hround, hends, -⟩ := (hf y (by simp [hsplit, hy])).of_ok ha
      exact ⟨hround, hends⟩
    · exact hleaf w hw
  obtain ⟨as, hall, hgives⟩ | ⟨before, x, after, e, hsplit, hbefore, hx, hgives⟩ |
    ⟨before, x, after, hsplit, hbefore, hx, hend⟩ :=
    traversal fun x hx => (hf x hx).gives_or_isEndless
  · have hcontents : ∀ w ∈ h.contents c,
        ¬ h.ComesRound (c :: seen) w ∧ Ends h.FormCalls (n + 1) ⟨c :: seen, w⟩ := by
      intro w hw
      cases hkept : keep w with
      | true =>
        obtain ⟨x, hx, rfl⟩ := mem_map.mp (hxs ▸ mem_filter.mpr ⟨hw, hkept⟩)
        obtain ⟨a, ha⟩ := exists_gives_of_forall₂ hall x hx
        obtain ⟨hround, hends, -⟩ := (hf x hx).of_ok ha
        exact ⟨hround, hends⟩
      | false => exact hleaf w hkept
    refine .tree as hgives (fun hround => ?_) ?_ fun hfree => ?_
    · rcases (comesRound_iff hc).mp hround with hin | ⟨w, hw, hround⟩
      · exact hnew hin
      · exact (hcontents w hw).1 hround
    · exact ends_of_contents hc fun w hw => (hcontents w hw).2
    · refine ((forall₂_and_left _ _).mpr ⟨fun x hx => hx, hall⟩).imp fun x a ⟨hx, ha⟩ => ?_
      exact ((hf x hx).of_ok ha).2.2 (hfree.part ⟨c, hc, hmem x hx⟩)
  · obtain ⟨front, back, hcontents, hfront⟩ := hfirst hsplit hbefore
    obtain ⟨rfl, hround, hends⟩ := (hf x (by simp [hsplit])).of_error hx
    refine .circular hgives (.inside hc (by simp [hcontents]) hround) ?_
    exact ends_of_contents_upto hc hcontents hround (fun w hw => (hfront w hw).2) hends
  · obtain ⟨front, back, hcontents, hfront⟩ := hfirst hsplit hbefore
    refine .endless hend fun hends => ?_
    refine (hf x (by simp [hsplit])).of_isEndless hx ?_
    exact hends _ (.inside hc hnew hcontents fun w hw => (hfront w hw).1)

end Container

lemma FormOutcome.orNull (ho : h.FormOutcome n p T form) :
    (∃ j, Gives (orNull form).run (.ok j)) ∧ Ends h.FormCalls (n + 1) p ∨
      IsEndless (orNull form).run ∧ ¬ Ends h.FormCalls n p := by
  rw [Heap.orNull, ExceptT.run_tryCatch]
  obtain ⟨j, hgives, -, hends, -⟩ | ⟨hgives, -, hends⟩ | ⟨hend, hnot⟩ := ho
  · exact .inl ⟨⟨j, hgives.bind (.pure _)⟩, hends⟩
  · exact .inl ⟨⟨.null, hgives.bind (.pure _)⟩, hends⟩
  · exact .inr ⟨hend.bind _, hnot⟩

lemma FormOutcome.bag {T : Json → Prop} {i : HostId} {attrs : Table Value}
    (hbag : h.hostObject i = .bag attrs) (seen : List Container) {form : Value → JsonReading Json}
    {T' : Value → Json → Prop} (hform : ∀ v, h.FormOutcome n ⟨[], v⟩ (T' v) (form v)) :
    h.FormOutcome (n + 1) ⟨seen, .host i⟩ T (do
      let members ← attrs.entries.mapM fun e => do
        let j ← Heap.orNull (form e.2)
        return (e.1, j)
      return .object members) := by
  have hround : ¬ h.ComesRound seen (.host i) := not_comesRound_of_container? rfl
  have hfree : ¬ h.HostFree (.host i) := fun hfree => hfree i .refl
  let member (e : String × Value) : JsonReading (String × Json) := do
    let j ← Heap.orNull (form e.2)
    return (e.1, j)
  have hattrs : ∀ e ∈ attrs.entries,
      (∃ m, Gives (member e).run (.ok m)) ∧ Ends h.FormCalls (n + 1) ⟨[], e.2⟩ ∨
        IsEndless (member e).run ∧ ¬ Ends h.FormCalls n ⟨[], e.2⟩ := by
    intro e _
    obtain ⟨⟨j, hj⟩, hends⟩ | ⟨hend, hnot⟩ := (hform e.2).orNull
    · exact .inl ⟨⟨_, hj.run_bind (.pure _)⟩, hends⟩
    · exact .inr ⟨hend.run_bind _, hnot⟩
  obtain ⟨ms, hall, hgives⟩ | ⟨before, e, after, err, hsplit, -, he, -⟩ |
    ⟨before, e, after, hsplit, -, he, hend⟩ :=
    traversal fun e he => (hattrs e he).imp (fun h => h.1.imp' _ fun _ => id) And.left
  · refine .tree _ (hgives.run_bind (.pure _)) hround (fun q hcall => ?_) (absurd · hfree)
    obtain ⟨e, he, rfl⟩ := (calls_host_iff hbag seen q).mp hcall
    obtain ⟨-, hends⟩ | ⟨hend, -⟩ := hattrs e he
    · exact hends
    · obtain ⟨m, hm⟩ := exists_gives_of_forall₂ hall e he
      exact absurd hend hm.not_isEndless
  · obtain ⟨⟨m, hm⟩, -⟩ | ⟨hend, -⟩ := hattrs e (by simp [hsplit])
    · cases he.unique hm
    · exact absurd hend he.not_isEndless
  · refine .endless (hend.run_bind _) fun hends => ?_
    obtain ⟨⟨m, hm⟩, -⟩ | ⟨-, hnot⟩ := hattrs e (by simp [hsplit])
    · exact absurd he hm.not_isEndless
    · exact hnot (hends _ (.ofBag hbag (by simp [hsplit])))

lemma formOutcome_jsonWithin (h : Heap) (n : Nat) (seen : List Container) (v : Value) :
    h.FormOutcome n ⟨seen, v⟩ (h.Unfolds v) (h.jsonWithin n seen v) := by
  induction n generalizing seen v with
  | zero => exact .endless isEndless_endless id
  | succ n ih =>
    rw [jsonWithin.eq_def]
    cases v with
    | list l =>
      show h.FormOutcome _ _ _ (if .list l ∈ seen then _ else _)
      by_cases hin : .list l ∈ seen
      · rw [if_pos hin]
        exact .circular (.pure _) (.here rfl hin) (ends_of_mem_seen rfl hin _)
      · rw [if_neg hin]
        have hitems := FormOutcome.container (v := .list l) rfl hin id (fun _ => true)
          (by simp [contents]) (by simp) fun w (_ : w ∈ h.items l) => ih (.list l :: seen) w
        exact .after (.map hitems _ fun js hjs => .list (unfoldsItems_of_forall₂ hjs))
          (gives_readItems h l)
    | object o =>
      show h.FormOutcome _ _ _ (if .object o ∈ seen then _ else _)
      by_cases hin : .object o ∈ seen
      · rw [if_pos hin]
        exact .circular (.pure _) (.here rfl hin) (ends_of_mem_seen rfl hin _)
      · rw [if_neg hin]
        have hentry (e : String × Value) : h.FormOutcome n ⟨.object o :: seen, e.2⟩
            (fun m : String × Json => m.1 = e.1 ∧ h.Unfolds e.2 m.2)
            (do let j ← h.jsonWithin n (.object o :: seen) e.2; return (e.1, j)) :=
          (ih _ _).map _ fun j hj => ⟨rfl, hj⟩
        -- Entries without a form are left out before anything is converted.
        have hmembers := FormOutcome.container (v := .object o) rfl hin Prod.snd (!·.isOmitted)
          (by simp [contents, filter_map, Function.comp_def])
          (fun w hw => isLeaf_of_isOmitted (by simpa using hw))
          fun e (_ : e ∈ (h.fields o).entries.filter fun e => !e.2.isOmitted) => hentry e
        refine .after (.map ?_ _ fun ms hms => .object (unfoldsMembers_of_forall₂ hms))
          (gives_readEntries h o)
        convert hmembers using 3
        funext e
        cases e.2 <;> rfl
    | host i =>
      dsimp only
      split
      -- A bag forgets the containers it stands in, which is why the induction is over all `seen`.
      case h_1 attrs hbag => exact .bag hbag seen (ih [])
      case h_2 hplain =>
        exact .tree _ (.pure _) (not_comesRound_of_container? rfl) (ends_of_not_bag hplain _ _)
          fun hfree => absurd .refl (hfree i)
    | undefined => exact .leaf rfl _ .undefined
    | null => exact .leaf rfl _ .null
    | function f name => exact .leaf rfl _ (.function f name)
    | bool b => exact .leaf rfl _ (.bool b)
    | number x => exact .leaf rfl _ (.number x)
    | text s => exact .leaf rfl _ (.text s)

mutual

lemma Unfolds.unique {v : Value} (hj : h.Unfolds v j) (hj' : h.Unfolds v j') : j = j' := by
  cases hj with
  | list hitems =>
    cases hj' with
    | list hitems' => rw [hitems.unique hitems']
  | object hmembers =>
    cases hj' with
    | object hmembers' => rw [hmembers.unique hmembers']
  | _ =>
    cases hj'
    rfl

lemma UnfoldsItems.unique {vs : List Value} (hjs : h.UnfoldsItems vs js)
    (hjs' : h.UnfoldsItems vs js') : js = js' := by
  cases hjs with
  | nil =>
    cases hjs'
    rfl
  | cons hv hvs =>
    cases hjs' with
    | cons hv' hvs' => rw [hv.unique hv', hvs.unique hvs']

lemma UnfoldsMembers.unique {es : List (String × Value)} (hms : h.UnfoldsMembers es ms)
    (hms' : h.UnfoldsMembers es ms') : ms = ms' := by
  cases hms with
  | nil =>
    cases hms'
    rfl
  | omitted hv hes =>
    cases hms' with
    | omitted _ hes' => exact hes.unique hes'
    | kept hv' => simp [hv] at hv'
  | kept hv hj hes =>
    cases hms' with
    | omitted hv' => simp [hv] at hv'
    | kept _ hj' hes' => rw [hj.unique hj', hes.unique hes']

end

lemma HostFree.reaches (hfree : h.HostFree v) (hreach : ReflTransGen h.FormCalls ⟨seen, v⟩ p) :
    ReflTransGen h.Part v p.value := by
  induction hreach with
  | refl => exact .refl
  | tail _ hcall ih =>
    cases hcall with
    | inside hc _ hreads => exact ih.tail ⟨_, hc, by simp [hreads]⟩
    | ofBag => exact absurd ih (hfree _)

lemma HostFree.not_comesBack (hfree : h.HostFree v) : ¬ ComesBack h.FormCalls v := by
  rintro ⟨i, seen, -, hreach, -⟩
  exact hfree i (hfree.reaches hreach)

lemma hostFree_of_contents (hv : ∀ i, v ≠ .host i)
    (hcontents : ∀ c, ∀ w ∈ h.contents c, ∀ i, w ≠ .host i) : h.HostFree v := by
  intro i hreach
  rcases ReflTransGen.cases_tail hreach with rfl | ⟨u, -, c, -, hw⟩
  · exact hv i rfl
  · exact hcontents c _ hw i rfl

/-- Where no host object can be reached, JSON fails exactly on circular values, and gives the tree
of all others. -/
theorem json_fails_iff_circular {h : Heap} {v : Value}
    (hfree : ∀ i, ¬ ReflTransGen h.Part v (.host i)) (slots : Array Slot) :
    ∃ r out, h.json v slots = some (r, out) ∧
      (r = .error .circular ↔ h.Circular v) ∧
      (¬ h.Circular v → ∃ j, r = .ok j ∧ ∀ j', h.Unfolds v j' ↔ j' = j) := by
  have hends : Ends h.FormCalls h.nesting ⟨[], v⟩ :=
    ends_nesting (fun _ => mem_containers) (HostFree.not_comesBack hfree)
  rw [← comesRound_nil_iff]
  obtain ⟨j, hgives, hround, -, htree⟩ | ⟨hgives, hround, -⟩ | ⟨-, hnot⟩ :=
    formOutcome_jsonWithin h h.nesting [] v
  · obtain ⟨out, hout⟩ := hgives slots
    refine ⟨_, out, hout, by simp [hround], fun _ => ⟨j, rfl, fun j' => ⟨fun hj' => ?_, ?_⟩⟩⟩
    · exact hj'.unique (htree hfree)
    · rintro rfl
      exact htree hfree
  · obtain ⟨out, hout⟩ := hgives slots
    exact ⟨_, out, hout, by simp [hround], fun hnot => absurd hround hnot⟩
  · exact absurd hends hnot

end Heap

namespace Knot

/-- An object with one list in two places and an entry without a form, and a list that holds
itself. -/
def heap : Heap where
  objects := #[⟨[("first", .list ⟨0⟩), ("none", .undefined), ("second", .list ⟨0⟩)]⟩]
  lists := #[[.text "x", .undefined], [.null, .list ⟨1⟩]]

lemma contents_ne_host (c : Container) : ∀ w ∈ heap.contents c, ∀ i, w ≠ .host i := by
  intro w hw i hi
  subst hi
  rcases c with ⟨_ | n⟩ | ⟨_ | _ | n⟩ <;>
    simp [heap, Heap.contents, Heap.items, Heap.fields, Table.empty] at hw

theorem json_fails_iff_circular_knot :
    heap.Circular (.list ⟨1⟩) ∧ ¬ heap.Circular (.object ⟨0⟩) ∧
      heap.Unfolds (.object ⟨0⟩) (.object [("first", .array [.text "x", .null]),
        ("second", .array [.text "x", .null])]) := by
  obtain ⟨r, out, hrun, hcircular, -⟩ := Heap.json_fails_iff_circular
    (Heap.hostFree_of_contents (v := .list ⟨1⟩) (fun i => nofun) contents_ne_host) #[]
  obtain ⟨r', out', hrun', hcircular', htree⟩ := Heap.json_fails_iff_circular
    (Heap.hostFree_of_contents (v := .object ⟨0⟩) (fun i => nofun) contents_ne_host) #[]
  have hr : some r = some _ := (congrArg (Option.map Prod.fst) hrun).symm.trans rfl
  have hr' : some r' = some _ := (congrArg (Option.map Prod.fst) hrun').symm.trans rfl
  cases hr
  cases hr'
  have hnot : ¬ heap.Circular (.object ⟨0⟩) := fun h => nomatch hcircular'.mpr h
  obtain ⟨j, hj, hunfolds⟩ := htree hnot
  cases hj
  exact ⟨hcircular.mp rfl, hnot, (hunfolds _).mpr rfl⟩

end Knot

namespace Heap

/-! ## Bags that come back -/

/-- A value is shown inside another: as an item of a list or an attribute of a bag. -/
inductive Shown (h : Heap) : Value → Value → Prop
  | item (hw : w ∈ h.items l) : Shown h (.list l) w
  | ofBag (hbag : h.hostObject i = .bag attrs) (he : e ∈ attrs.entries) : Shown h (.host i) e.2

section Shown

lemma shown_of_textCalls (hcall : h.TextCalls p q) : h.Shown p.value q.value := by
  cases hcall with
  | @inside _ v _ c _ _ hc _ hreads =>
    cases c with
    | list l =>
      cases container?_inj hc (rfl : (list l).container? = _)
      exact .item (hreads ▸ by simp : _ ∈ h.shownItems (.list l))
    | object o => simp [shownItems] at hreads
  | ofBag hbag he => exact .ofBag hbag he

lemma textCalls_of_subset (hreach : ReflTransGen h.TextCalls p q) (hsub : seen ⊆ p.seen) :
    ∃ seen', ReflTransGen h.TextCalls ⟨seen, p.value⟩ ⟨seen', q.value⟩ := by
  induction hreach using ReflTransGen.head_induction_on generalizing seen with
  | refl => exact ⟨seen, .refl⟩
  | head hcall _ ih =>
    cases hcall with
    | inside hc hnew hreads hstops =>
      obtain ⟨seen', hrest⟩ := ih (cons_subset_cons _ hsub)
      exact ⟨seen', .head (.inside hc (fun hmem => hnew (hsub hmem)) hreads fun _ _ => id) hrest⟩
    | ofBag hbag he =>
      obtain ⟨seen', hrest⟩ := ih (Subset.refl _)
      exact ⟨seen', .head (.ofBag hbag he) hrest⟩

/-- One more container behind leaves a way open, unless the way leads through that container. -/
lemma textCalls_avoiding (hreach : ReflTransGen h.TextCalls p q) (c : Container)
    (hsub : seen ⊆ c :: p.seen) :
    (∃ seen', ReflTransGen h.TextCalls ⟨seen, p.value⟩ ⟨seen', q.value⟩) ∨
      ∃ seen' v, v.container? = some c ∧ ReflTransGen h.TextCalls ⟨seen', v⟩ q := by
  induction hreach using ReflTransGen.head_induction_on generalizing seen with
  | refl => exact .inl ⟨seen, .refl⟩
  | head hcall hrest ih =>
    cases hcall with
    | @inside seen0 v w d before after hd hnew hreads hstops =>
      by_cases hcd : d = c
      · subst hcd
        exact .inr ⟨seen0, v, hd, .head (.inside hd hnew hreads hstops) hrest⟩
      · have hsub' : d :: seen ⊆ c :: d :: seen0 := by
          intro e he
          have := @hsub e
          simp only [mem_cons] at he this ⊢
          tauto
        have hnew' : d ∉ seen := by
          intro hmem
          rcases mem_cons.mp (hsub hmem) with rfl | hmem
          · exact hcd rfl
          · exact hnew hmem
        refine (ih hsub').imp_left fun ⟨seen', hpath⟩ => ⟨seen', ?_⟩
        exact .head (.inside hd hnew' hreads fun _ _ => id) hpath
    | ofBag hbag he =>
      refine (ih (nil_subset _)).imp_left fun ⟨seen', hpath⟩ => ⟨seen', ?_⟩
      exact .head (.ofBag hbag he) hpath

lemma textCalls_of_shown (hreach : ReflTransGen h.Shown v w) :
    ∃ seen, ReflTransGen h.TextCalls ⟨[], v⟩ ⟨seen, w⟩ := by
  induction hreach using ReflTransGen.head_induction_on with
  | refl => exact ⟨[], .refl⟩
  | head hshown _ ih =>
    obtain ⟨seen, hrest⟩ := ih
    cases hshown with
    | @item l w hw =>
      -- If the way comes to this list again, it can be taken from there on.
      obtain ⟨before, after, hsplit⟩ := append_of_mem hw
      rcases textCalls_avoiding hrest (.list l) (Subset.refl [Container.list l]) with
        ⟨seen', hpath⟩ | ⟨seen', v, hv, hpath⟩
      · exact ⟨seen', .head (.inside rfl not_mem_nil hsplit fun _ _ => id) hpath⟩
      · cases container?_inj hv (rfl : (list l).container? = _)
        exact textCalls_of_subset hpath (nil_subset _)
    | ofBag hbag he => exact ⟨seen, .head (.ofBag hbag he) hrest⟩

lemma comesBack_textCalls_iff : ComesBack h.TextCalls v ↔
    ∃ i, ReflTransGen h.Shown v (.host i) ∧ TransGen h.Shown (.host i) (.host i) := by
  constructor
  · rintro ⟨i, seen, seen', hreach, hback⟩
    exact ⟨i, hreach.lift Place.value fun _ _ => shown_of_textCalls,
      hback.lift Place.value fun _ _ => shown_of_textCalls⟩
  · rintro ⟨i, hreach, hback⟩
    obtain ⟨seen, hreach⟩ := textCalls_of_shown hreach
    obtain ⟨w, hshown, hback⟩ := TransGen.head'_iff.mp hback
    obtain ⟨seen', hback⟩ := textCalls_of_shown hback
    cases hshown with
    | ofBag hbag he => exact ⟨i, seen, seen', hreach, .head' (.ofBag hbag he) hback⟩

end Shown

lemma mem_containers_of_shownItems (hc : h.shownItems c ≠ []) : c ∈ h.containers := by
  cases c with
  | list l => exact mem_containers hc
  | object o => exact absurd rfl hc

section Depth

lemma isSome_display_iff (slots : Array Slot) :
    (h.display v slots).isSome = true ↔ ¬ ComesBack h.TextCalls v := by
  rw [← ends_nesting_iff fun _ => mem_containers_of_shownItems]
  obtain ⟨⟨a, ha⟩, hends⟩ | ⟨hend, hnot⟩ := follows_displayWithin h h.nesting [] v
  · exact iff_of_true (ha.isSome slots)
      (ends_nesting (fun _ => mem_containers_of_shownItems) (not_comesBack_of_ends hends))
  · exact iff_of_false (by rw [display, hend.isSome]; exact Bool.false_ne_true) hnot

lemma isSome_display_of_depth (hsome : (h.displayWithin depth [] v slots).isSome = true) :
    (h.display v slots).isSome = true := by
  rw [isSome_display_iff]
  obtain ⟨-, hends⟩ | ⟨hend, -⟩ := follows_displayWithin h depth [] v
  · exact not_comesBack_of_ends hends
  · rw [hend.isSome] at hsome
    cases hsome

lemma isSome_json_iff (slots : Array Slot) :
    (h.json v slots).isSome = true ↔ ¬ ComesBack h.FormCalls v := by
  rw [← ends_nesting_iff fun _ => mem_containers]
  obtain ⟨j, hgives, -, hends, -⟩ | ⟨hgives, -, hends⟩ | ⟨hend, hnot⟩ :=
    formOutcome_jsonWithin h h.nesting [] v
  · exact iff_of_true (hgives.isSome slots)
      (ends_nesting (fun _ => mem_containers) (not_comesBack_of_ends hends))
  · exact iff_of_true (hgives.isSome slots)
      (ends_nesting (fun _ => mem_containers) (not_comesBack_of_ends hends))
  · exact iff_of_false (by rw [json, hend.isSome]; exact Bool.false_ne_true) hnot

lemma isSome_json_of_depth (hsome : ((h.jsonWithin depth [] v).run slots).isSome = true) :
    (h.json v slots).isSome = true := by
  rw [isSome_json_iff]
  obtain ⟨j, -, -, hends, -⟩ | ⟨-, -, hends⟩ | ⟨hend, -⟩ := formOutcome_jsonWithin h depth [] v
  · exact not_comesBack_of_ends hends
  · exact not_comesBack_of_ends hends
  · rw [hend.isSome] at hsome
    cases hsome

end Depth

/-- Text and JSON are given unless the conversion comes to a bag, and from there to the same bag
again. For text, any way back to the bag does; for JSON, a circle of containers before it ends the
conversion early. Where they are not given, no depth would do. -/
theorem written_unless_bag_returns (h : Heap) (v : Value) (slots : Array Slot) :
    ((h.display v slots).isSome = true ↔
      ¬ ∃ i, ReflTransGen h.Shown v (.host i) ∧ TransGen h.Shown (.host i) (.host i)) ∧
    ((h.json v slots).isSome = true ↔ ¬ ComesBack h.FormCalls v) ∧
    ∀ depth, ((h.displayWithin depth [] v slots).isSome = true →
        (h.display v slots).isSome = true) ∧
      (((h.jsonWithin depth [] v).run slots).isSome = true → (h.json v slots).isSome = true) := by
  refine ⟨?_, isSome_json_iff slots, fun depth => ⟨isSome_display_of_depth, isSome_json_of_depth⟩⟩
  rw [isSome_display_iff, comesBack_textCalls_iff]

end Heap

namespace Knot

/-- A list that holds a bag whose attribute is the list. -/
def bagged : Heap where
  lists := #[[.host ⟨0⟩]]
  hosts := #[.bag ⟨[("x", .list ⟨0⟩)]⟩]

theorem bagged_has_no_written_form :
    bagged.display (.list ⟨0⟩) #[] = none ∧ bagged.json (.list ⟨0⟩) #[] = none ∧
      ¬ ∃ depth slots, (bagged.displayWithin depth [] (.list ⟨0⟩) slots).isSome = true ∨
        ((bagged.jsonWithin depth [] (.list ⟨0⟩)).run slots).isSome = true := by
  have hcycle {reads : Container → List Value} {stops : List Container → Value → Prop}
      (hreads : reads (.list ⟨0⟩) = [] ++ .host ⟨0⟩ :: []) :
      Heap.ComesBack (bagged.Calls reads stops) (.list ⟨0⟩) := by
    have hitem : bagged.Calls reads stops ⟨[], .list ⟨0⟩⟩ ⟨[.list ⟨0⟩], .host ⟨0⟩⟩ :=
      .inside rfl List.not_mem_nil hreads nofun
    have hattr : bagged.Calls reads stops ⟨[.list ⟨0⟩], .host ⟨0⟩⟩ ⟨[], .list ⟨0⟩⟩ :=
      .ofBag (e := ("x", .list ⟨0⟩)) rfl (by simp)
    exact ⟨⟨0⟩, _, _, .single hitem, .head hattr (.single hitem)⟩
  refine ⟨rfl, rfl, ?_⟩
  rintro ⟨depth, slots, hsome | hsome⟩
  · exact (Heap.isSome_display_iff slots).mp (Heap.isSome_display_of_depth hsome) (hcycle rfl)
  · exact (Heap.isSome_json_iff slots).mp (Heap.isSome_json_of_depth hsome) (hcycle rfl)

end Knot

end LiveMarkup
