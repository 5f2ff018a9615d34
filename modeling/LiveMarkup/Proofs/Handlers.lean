import LiveMarkup.Proofs.Housekeeping

/-!
# Markers and handlers

Markup is written to a target in one piece: its text without markers becomes the content, and the
markers become the handlers. Bindings are numbered by kind in document order, so the binding of a
kind with a number is the marker of that kind at that position, `Binding.find?_numbered`. So an
interaction reaches the marker at its position, if there is one, and otherwise it is reported missing
and changes nothing.
-/

namespace LiveMarkup

open List Option View

/-! ## Markers in document order -/

/-- A marker in markup: what it does, to what, and whether it is on a checkbox. -/
structure Marker where
  kind : BindingKind
  target : String
  checkbox : Bool
deriving DecidableEq

namespace Binding

def toMarker (b : Binding) : Marker :=
  ⟨b.kind, b.target, b.checkbox⟩

/-- The markers of a tag, in order. A click is never on a checkbox. -/
def tagMarkers (tag : List Char) : List Marker :=
  (stripTag tag).1.map fun m => ⟨m.1, m.2, m.1 == .model && mentionsCheckbox tag⟩

def markersFrom (cs : List Char) : List Marker :=
  match cs with
  | [] => []
  | c :: rest =>
    match h : tag? (c :: rest) with
    | some (tag, more) =>
      have : more.length < (c :: rest).length := tag?_length h
      tagMarkers tag ++ markersFrom more
    | none => markersFrom rest
termination_by cs.length
decreasing_by
  · exact this
  · exact Nat.lt_succ_self _

def markers (html : String) : List Marker :=
  markersFrom html.toList

def Count.of (n : Count) : BindingKind → Nat
  | .click => n.clicks
  | .model => n.models

def Count.bump (n : Count) : BindingKind → Count
  | .click => { n with clicks := n.clicks + 1 }
  | .model => { n with models := n.models + 1 }

/-- Bindings are numbered by kind, one after the other. -/
def Numbered (n : Count) : List Binding → Prop
  | [] => True
  | b :: rest => b.ordinal = n.of b.kind ∧ Numbered (n.bump b.kind) rest

def Count.after (n : Count) (bs : List Binding) : Count :=
  bs.foldl (fun n b => n.bump b.kind) n

lemma Count.of_bump_self (n : Count) (k : BindingKind) : (n.bump k).of k = n.of k + 1 := by
  cases k <;> rfl

lemma Count.of_bump_of_ne (n : Count) (h : k ≠ k') : (n.bump k').of k = n.of k := by
  cases k <;> cases k' <;> first | rfl | exact absurd rfl h

lemma Numbered.append (h : Numbered n bs) (h' : Numbered (n.after bs) bs') :
    Numbered n (bs ++ bs') := by
  induction bs generalizing n with
  | nil => exact h'
  | cons b rest ih => exact ⟨h.1, ih h.2 h'⟩

lemma number_spec (checkbox : Bool) (n : Count) (ms : List (BindingKind × String)) :
    Numbered n (number checkbox n ms).1 ∧ (number checkbox n ms).2 = n.after (number checkbox n ms).1 ∧
      (number checkbox n ms).1.map toMarker =
        ms.map fun m => ⟨m.1, m.2, m.1 == .model && checkbox⟩ := by
  induction ms generalizing n with
  | nil => exact ⟨trivial, rfl, rfl⟩
  | cons m rest ih =>
    obtain ⟨kind, target⟩ := m
    cases kind with
    | click =>
      obtain ⟨hnum, hcount, hmarkers⟩ := ih { n with clicks := n.clicks + 1 }
      exact ⟨⟨rfl, hnum⟩, hcount, congrArg _ hmarkers⟩
    | model =>
      obtain ⟨hnum, hcount, hmarkers⟩ := ih { n with models := n.models + 1 }
      exact ⟨⟨rfl, hnum⟩, hcount, congrArg _ hmarkers⟩

section Document

variable {c : Char} {rest tag more : List Char}

lemma extractFrom_tag (n : Count) (h : tag? (c :: rest) = some (tag, more)) :
    extractFrom n (c :: rest) =
      ((stripTag tag).2 ++ (extractFrom (number (mentionsCheckbox tag) n (stripTag tag).1).2 more).1,
        (number (mentionsCheckbox tag) n (stripTag tag).1).1 ++
          (extractFrom (number (mentionsCheckbox tag) n (stripTag tag).1).2 more).2) := by
  rw [extractFrom]
  split
  · rename_i h'
    cases h.symm.trans h'
    rfl
  · rename_i h'
    cases h.symm.trans h'

lemma extractFrom_char (n : Count) (h : tag? (c :: rest) = none) :
    extractFrom n (c :: rest) = (c :: (extractFrom n rest).1, (extractFrom n rest).2) := by
  rw [extractFrom]
  split
  · rename_i h'
    cases h.symm.trans h'
  · rfl

lemma markersFrom_tag (h : tag? (c :: rest) = some (tag, more)) :
    markersFrom (c :: rest) = tagMarkers tag ++ markersFrom more := by
  rw [markersFrom]
  split
  · rename_i h'
    cases h.symm.trans h'
    rfl
  · rename_i h'
    cases h.symm.trans h'

lemma markersFrom_char (h : tag? (c :: rest) = none) :
    markersFrom (c :: rest) = markersFrom rest := by
  rw [markersFrom]
  split
  · rename_i h'
    cases h.symm.trans h'
  · rfl

end Document

lemma extractFrom_spec (n : Count) (cs : List Char) :
    Numbered n (extractFrom n cs).2 ∧ (extractFrom n cs).2.map toMarker = markersFrom cs := by
  induction n, cs using extractFrom.induct with
  | case1 n =>
    rw [extractFrom, markersFrom]
    exact ⟨trivial, rfl⟩
  | case2 n c rest tag more h _ s b ih =>
    obtain ⟨hnum, hcount, hmarkers⟩ := number_spec (mentionsCheckbox tag) n (stripTag tag).1
    obtain ⟨hrest, hmore⟩ := ih
    rw [extractFrom_tag n h, markersFrom_tag h]
    refine ⟨hnum.append (hcount ▸ hrest), ?_⟩
    rw [map_append, hmarkers, hmore]
    rfl
  | case3 n c rest h ih =>
    rw [extractFrom_char n h, markersFrom_char h]
    exact ih

lemma numbered_extract (html : String) : Numbered {} (extract html).bindings :=
  (extractFrom_spec {} html.toList).1

lemma markers_extract (html : String) : (extract html).bindings.map toMarker = markers html :=
  (extractFrom_spec {} html.toList).2

/-- The binding of a kind with a number is the one of that kind at that position. -/
lemma find?_numbered (h : Numbered n bs) (k : BindingKind) (j : Nat) :
    (bs.find? fun b => b.kind == k && b.ordinal == n.of k + j) =
      (bs.filter fun b => b.kind == k)[j]? := by
  induction bs generalizing n j with
  | nil => rfl
  | cons b rest ih =>
    obtain ⟨hb, hrest⟩ := h
    -- a binding of the kind takes one number, and others leave the count of the kind alone
    by_cases hk : b.kind = k
    · subst hk
      rw [filter_cons_of_pos (by simp), find?_cons, hb]
      cases j with
      | zero => simp
      | succ j =>
        have hne : ¬ n.of b.kind = n.of b.kind + (j + 1) := by omega
        have hnext : n.of b.kind + (j + 1) = (n.bump b.kind).of b.kind + j := by
          rw [Count.of_bump_self]
          omega
        simp only [beq_self_eq_true, Bool.true_and, beq_eq_false_iff_ne.mpr hne, getElem?_cons_succ]
        rw [hnext]
        exact ih hrest j
    · rw [filter_cons_of_neg (by simpa using hk), find?_cons]
      simp only [beq_eq_false_iff_ne.mpr hk, Bool.false_and]
      rw [← Count.of_bump_of_ne n (Ne.symm hk)]
      exact ih hrest j

end Binding

variable {C : Client} {α : Type}

/-! ## Interactions with a target -/

/-- What a marker of an instance does when it is interacted with. -/
def Marker.handler (i : InstanceId) (data : ObjectId) (mk : Marker) : Handler :=
  match mk.kind with
  | .click => .click i mk.target
  | .model => .model data mk.target mk.checkbox

lemma View.handlerOf_eq (i : InstanceId) (data : ObjectId) (b : Binding) :
    handlerOf i data b = b.toMarker.handler i data := by
  rfl

namespace Target

variable {x : Target} {i : InstanceId} {data : ObjectId} {html : String}

/-- The handler that an interaction finds is that of the marker at its position. -/
lemma Shows.find?_handlers (h : x.Shows i data html) (kind : BindingKind) (k : Nat) :
    (x.handlers.find? fun b => b.1.kind == kind && b.1.ordinal == k).map Prod.snd =
      ((Binding.markers html).filter fun mk => mk.kind == kind)[k]?.map (Marker.handler i data) := by
  have hfound : ((Binding.extract html).bindings.find? fun b => b.kind == kind && b.ordinal == k) =
      ((Binding.extract html).bindings.filter fun b => b.kind == kind)[k]? := by
    have hzero : ∀ kind : BindingKind, ({} : Binding.Count).of kind = 0 := fun kind => by
      cases kind <;> rfl
    have hfind := Binding.find?_numbered (Binding.numbered_extract html) kind k
    rwa [hzero, Nat.zero_add] at hfind
  have hmarkers : (Binding.markers html).filter (fun mk => mk.kind == kind) =
      ((Binding.extract html).bindings.filter fun b => b.kind == kind).map Binding.toMarker := by
    rw [← Binding.markers_extract, List.filter_map]
    rfl
  rw [h.handlers, List.find?_map, hmarkers, List.getElem?_map, Option.map_map, Option.map_map]
  refine (congrArg _ hfound).trans ?_
  exact congrArg (Option.map · _) (funext fun b => handlerOf_eq i data b)

end Target

namespace View

variable {call : C.Caller} {w : C.World} {t : TargetId} {x : Target}

section

variable (hx : w.state.targets[t.index]? = some x)
include hx

lemma run_dispatch (kind : BindingKind) (k : Nat) (input : Value) :
    (dispatch t kind k input).run call w =
      match (x.handlers.find? fun b => b.1.kind == kind && b.1.ordinal == k).map Prod.snd with
      | some h => ((handle h input).run call w).map fun r => (.ok (), r.2)
      | none => some (.error (.bindingNotFound kind k), w) := by
  have hget : get.run call w = some (w.state, w) := rfl
  rw [dispatch, Program.run_bind, hget, bind_some]
  simp only [hx, getD_some]
  cases x.handlers.find? fun b => b.1.kind == kind && b.1.ordinal == k with
  | none => rfl
  | some h =>
    simp only [map_some]
    rw [Program.run_bind]
    cases (handle h.2 input).run call w with
    | none => rfl
    | some r => rfl

lemma run_dispatch_of_detached (hnone : x.handlers = []) (kind : BindingKind) (k : Nat)
    (input : Value) :
    (dispatch t kind k input).run call w = some (.error (.bindingNotFound kind k), w) := by
  rw [run_dispatch hx, hnone]
  rfl

lemma run_dispatch_of_shows (h : x.Shows i data html) (kind : BindingKind) (k : Nat)
    (input : Value) : (dispatch t kind k input).run call w =
      match ((Binding.markers html).filter fun mk => mk.kind == kind)[k]? with
      | some mk => ((handle (mk.handler i data) input).run call w).map fun r => (.ok (), r.2)
      | none => some (.error (.bindingNotFound kind k), w) := by
  rw [run_dispatch hx, h.find?_handlers]
  cases ((Binding.markers html).filter fun mk => mk.kind == kind)[k]? <;> rfl

end

end View

end LiveMarkup
