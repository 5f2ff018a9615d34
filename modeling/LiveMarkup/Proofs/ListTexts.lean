import LiveMarkup.Proofs.Paths
import LiveMarkup.Proofs.WrittenForms
import Mathlib.Algebra.Order.BigOperators.Group.List

/-!
# The text of a list

A list prints as the texts of its items with commas between them, absent items as nothing. Taken at
its word this rule never ends on a list that stands inside itself, and so the printer keeps the
lists that it is inside of and passes over an item that is one of them. `Heap.Spells` is the rule,
with what is passed over left open: nothing for the plain rule, the lists around for the guarded
one.

The printer follows the guarded rule, which is the plain one where no list stands inside itself.
Telling apart the places of a shared list, by giving each of them a list of its own, leaves every
text as it is.

Joining the items of a list prints each of them on its own, without the list around them. That shows
if the list stands somewhere inside itself, unless it has but one item.
-/

namespace LiveMarkup

open List Value Set

variable {text : Value → String} {items : List Value} {h : Heap}

open Relation

/-- The text of a value that is not opened for it. -/
def Value.ownText? : Value → Option String
  | .undefined => some "undefined"
  | .null => some "null"
  | .bool b => some (if b then "true" else "false")
  | .number x => some (Number.text x)
  | .text s => some s
  | .object _ => some "[object Object]"
  | .function _ name => some ("function " ++ name ++ "() \x7b [native code] \x7d")
  | .list _ | .host _ => none

def Value.relabel (name : ListId → ListId) : Value → Value
  | .list l => .list (name l)
  | v => v

namespace Value

variable {v : Value}

lemma relabel_id (v : Value) : v.relabel id = v := by
  cases v <;> rfl

lemma relabel_eq_list : v.relabel name = .list m ↔ ∃ l, v = .list l ∧ name l = m := by
  cases v <;> simp [relabel]

lemma ownText?_relabel (name : ListId → ListId) (v : Value) :
    (v.relabel name).ownText? = v.ownText? := by
  cases v <;> rfl

lemma isNullish_relabel (name : ListId → ListId) (v : Value) :
    (v.relabel name).isNullish = v.isNullish := by
  cases v <;> rfl

end Value

namespace Heap

/-- Texts of items with commas between them. Absent items are empty. -/
def joinTexts (text : Value → String) (items : List Value) : String :=
  ",".intercalate (items.map fun w => if w.isNullish then "" else text w)

/-- The rule by which values print inside the lists `around`. An item that is `cut` there is passed
over, and any other list is the join of the texts of its items. -/
inductive Spells (h : Heap) (cut : Set ListId → ListId → Prop) : Set ListId → Value → String → Prop
  | own (hv : v.ownText? = some s) : Spells h cut around v s
  | again (hcut : cut around l) : Spells h cut around (.list l) ""
  | list (text : Value → String) (hcut : ¬ cut around l)
      (htext : ∀ w ∈ h.items l, w.isNullish = false → Spells h cut (insert l around) w (text w)) :
      Spells h cut around (.list l) (joinTexts text (h.items l))

abbrev Plain : Set ListId → ListId → Prop :=
  fun _ _ => False

/-- The lists that are being printed are passed over. -/
abbrev Guarded : Set ListId → ListId → Prop :=
  fun around l => l ∈ around

/-! ## Joining -/

lemma joinTexts_congr (h : ∀ w ∈ items, w.isNullish = false → text w = text' w) :
    joinTexts text items = joinTexts text' items := by
  refine congrArg _ (map_congr_left fun w hw => ?_)
  cases hn : w.isNullish with
  | true => rfl
  | false => simpa using h w hw hn

lemma joinTexts_map (text : Value → String) (name : ListId → ListId) (items : List Value) :
    joinTexts text (items.map (relabel name)) =
      joinTexts (fun w => text (w.relabel name)) items := by
  simp only [joinTexts, List.map_map, Function.comp_def, Value.isNullish_relabel]

lemma length_intercalate (parts : List String) :
    (",".intercalate parts).length = (parts.map String.length).sum + (parts.length - 1) := by
  induction parts with
  | nil => rfl
  | cons p parts ih =>
    cases parts with
    | nil => simp
    | cons q parts =>
      have hcomma : ",".length = 1 := rfl
      rw [String.intercalate_cons_cons, map_cons, sum_cons, String.length_append,
        String.length_append, ih, hcomma]
      simp only [length_cons]
      omega

def partLength (text : Value → String) (w : Value) : Nat :=
  (if w.isNullish then "" else text w).length

lemma length_joinTexts (text : Value → String) (items : List Value) :
    (joinTexts text items).length = (items.map (partLength text)).sum + (items.length - 1) := by
  rw [joinTexts, length_intercalate, List.map_map, length_map]
  rfl

lemma partLength_le (h : w.isNullish = false → (text w).length ≤ (text' w).length) :
    partLength text w ≤ partLength text' w := by
  unfold partLength
  cases hn : w.isNullish with
  | true => exact Nat.le_refl _
  | false => simpa using h hn

lemma length_joinTexts_le
    (h : ∀ w ∈ items, w.isNullish = false → (text w).length ≤ (text' w).length) :
    (joinTexts text items).length ≤ (joinTexts text' items).length := by
  rw [length_joinTexts, length_joinTexts]
  exact Nat.add_le_add_right (sum_le_sum fun w hw => partLength_le (h w hw)) _

lemma length_joinTexts_lt
    (h : ∀ w ∈ items, w.isNullish = false → (text w).length ≤ (text' w).length) (hw : w ∈ items)
    (hn : w.isNullish = false) (hlt : (text w).length < (text' w).length) :
    (joinTexts text items).length < (joinTexts text' items).length := by
  have hpart : partLength text w < partLength text' w := by simpa [partLength, hn] using hlt
  rw [length_joinTexts, length_joinTexts]
  exact Nat.add_lt_add_right
    (sum_lt_sum _ _ (fun w hw => partLength_le (h w hw)) ⟨w, hw, hpart⟩) _

lemma length_joinTexts_pos (h : 2 ≤ items.length) : 0 < (joinTexts text items).length := by
  rw [length_joinTexts]
  omega

/-! ## One rule, one text -/

section Rule

variable {h' : Heap}

lemma Spells.unique (hs : h.Spells cut around v s) (hs' : h.Spells cut around v s') : s = s' := by
  induction hs generalizing s' with
  | own hv =>
    cases hs' with
    | own hv' => exact Option.some.inj (hv.symm.trans hv')
    | again | list => cases hv
  | again hcut =>
    cases hs' with
    | own hv' => cases hv'
    | again => rfl
    | list _ hcut' => exact absurd hcut hcut'
  | list text hcut htext ih =>
    cases hs' with
    | own hv' => cases hv'
    | again hcut' => exact absurd hcut' hcut
    | list text' _ htext' =>
      exact joinTexts_congr fun w hw hn => ih w hw hn (htext' w hw hn)

lemma Spells.transfer (name : ListId → ListId) (R : Set ListId → Set ListId → Value → Prop)
    (hcut : ∀ {A A' l}, R A A' (.list l) → (cut A (name l) ↔ cut' A' l)) (hitems : ∀ {A A' l}, R A
    A' (.list l) → ¬ cut A (name l) → (h'.items l).map (relabel name) = h.items (name l) ∧ ∀ w ∈
      h'.items l, R (insert (name l) A) (insert l A') w) (hR : R around around' v')
    (hs : h.Spells cut around (v'.relabel name) s) : h'.Spells cut' around' v' s := by
  generalize hv' : v'.relabel name = v at hs
  induction hs generalizing around' v' with
  | own hv =>
    rw [← hv', ownText?_relabel] at hv
    exact .own hv
  | again hagain =>
    obtain ⟨l, rfl, rfl⟩ := relabel_eq_list.mp hv'
    exact .again ((hcut hR).mp hagain)
  | list text hnew _ ih =>
    obtain ⟨l, rfl, rfl⟩ := relabel_eq_list.mp hv'
    obtain ⟨hmap, hinside⟩ := hitems hR hnew
    rw [← hmap, joinTexts_map]
    refine .list _ (fun hagain => hnew ((hcut hR).mpr hagain)) fun w hw hn => ?_
    refine ih (w.relabel name) (hmap ▸ mem_map_of_mem hw) ?_ (hinside w hw) rfl
    rw [isNullish_relabel]
    exact hn

lemma Spells.exchange {R : Set ListId → Set ListId → Value → Prop}
    (hcut : ∀ {A A' l}, R A A' (.list l) → (cut A l ↔ cut' A' l))
    (hitems : ∀ {A A' l}, R A A' (.list l) → ¬ cut A l → ∀ w ∈ h.items l, R (insert l A) (insert l A') w)
    (hR : R around around' v) (hs : h.Spells cut around v s) : h.Spells cut' around' v s := by
  have hsame : relabel id = id := funext relabel_id
  have hid (l : ListId) : (h.items l).map (relabel id) = h.items (id l) := by
    rw [hsame, map_id]
    rfl
  refine Spells.transfer (h := h) id R hcut (fun {A A' l} hR hnew => ?_) hR ?_
  · exact ⟨hid l, hitems hR hnew⟩
  · rwa [relabel_id]

lemma spells_list_of_mem (hl : l ∈ around) (hs : h.Spells Guarded around (.list l) s) : s = "" :=
  hs.unique (.again hl)

end Rule

/-! ## The printer -/

section Printer

open Reading

/-- What is printed is printed by the guarded rule. -/
lemma spells_of_gives (hfree : ∀ i, ¬ ReflTransGen h.Shown v (.host i))
    (hs : Gives (h.displayWithin n seen v) s) : h.Spells Guarded {l | l ∈ seen} v s := by
  induction n generalizing seen v s with
  | zero => exact absurd isEndless_endless hs.not_isEndless
  | succ n ih =>
    rw [displayWithin.eq_def] at hs
    cases v with
    | list l =>
      have hs : Gives (if l ∈ seen then _ else _) s := hs
      by_cases hin : l ∈ seen
      · rw [if_pos hin] at hs
        rw [hs.unique (.pure _)]
        exact .again hin
      · rw [if_neg hin] at hs
        let part (w : Value) : Reading String :=
          if w.isNullish then pure "" else h.displayWithin n (l :: seen) w
        have hpart (w : Value) : (∃ p, Gives (part w) p) ∨ IsEndless (part w) := by
          by_cases hn : w.isNullish = true
          · exact .inl ⟨"", by simp only [part, if_pos hn]; exact .pure _⟩
          · simp only [part, if_neg hn]
            exact (follows_displayWithin h n (l :: seen) w).imp And.left And.left
        -- The list is printed, so none of its items is without a text.
        have hall : ∀ w ∈ h.items l, ∃ p, Gives (part w) p := by
          rcases mapM_cases (f := part) fun w (_ : w ∈ h.items l) => hpart w with
            ⟨-, hall⟩ | ⟨hend, -⟩
          · exact hall
          · exact absurd ((gives_readItems h l).bind_isEndless (hend.bind _)) hs.not_isEndless
        choose! text htext using hall
        have hgives : ∀ w ∈ h.items l, Gives (part w) (if w.isNullish then "" else text w) := by
          intro w hw
          by_cases hn : w.isNullish = true
          · simp only [part, if_pos hn]
            exact .pure _
          · rw [if_neg hn]
            exact htext w hw
        have hjoin : s = joinTexts text (h.items l) :=
          hs.unique ((gives_readItems h l).bind ((gives_mapM hgives).bind (.pure _)))
        have haround : insert l {m | m ∈ seen} = {m | m ∈ l :: seen} := by
          ext m
          simp
        rw [hjoin]
        refine .list text hin fun w hw hn => ?_
        have hw' := htext w hw
        simp only [part, hn, Bool.false_eq_true, if_false] at hw'
        rw [haround]
        exact ih (fun i hi => hfree i (.head (.item hw) hi)) hw'
    | host i => exact absurd .refl (hfree i)
    | _ => exact .own (congrArg some ((Gives.pure _).unique hs))

lemma exists_text (hfree : ∀ i, ¬ ReflTransGen h.Shown v (.host i)) :
    ∃ s, Gives (h.display v) s ∧ h.Spells Guarded ∅ v s := by
  have hends : ¬ ComesBack h.TextCalls v := by
    rw [comesBack_textCalls_iff]
    rintro ⟨i, hreach, -⟩
    exact hfree i hreach
  obtain ⟨⟨s, hs⟩, -⟩ | ⟨hend, -⟩ := follows_displayWithin h h.nesting [] v
  · refine ⟨s, hs, ?_⟩
    have hnil : {l : ListId | l ∈ ([] : List ListId)} = ∅ := by simp
    rw [← hnil]
    exact spells_of_gives hfree hs
  · have hsome := (isSome_display_iff #[]).mpr hends
    rw [display, hend.isSome] at hsome
    cases hsome

end Printer

/-! ## Lists that do not stand inside themselves -/

lemma Spells.plain
    (hacyclic : ∀ l, ReflTransGen h.Shown v (.list l) → ¬ TransGen h.Shown (.list l) (.list l))
    (hs : h.Spells Guarded ∅ v s) : h.Spells Plain ∅ v s := by
  -- The lists around a value lead to it, so a list that is around itself would stand inside itself.
  refine hs.exchange (R := fun A _ w => ReflTransGen h.Shown v w ∧
    ∀ a ∈ A, TransGen h.Shown (.list a) w) ?_ ?_ ⟨.refl, fun _ ha => absurd ha (notMem_empty _)⟩
  · rintro A A' l ⟨hreach, hA⟩
    exact iff_of_false (fun hl => hacyclic l hreach (hA l hl)) id
  · rintro A A' l ⟨hreach, hA⟩ - w hw
    refine ⟨hreach.tail (.item hw), ?_⟩
    rintro a (rfl | ha)
    · exact .single (.item hw)
    · exact (hA a ha).tail (.item hw)

/-! ## Shared lists -/

/-- The lists that show inside `v` are copies of lists of another heap, each of the one that `name`
says. A list may have many copies, but none stands inside another one. -/
structure Copies (h' h : Heap) (name : ListId → ListId) (v : Value) : Prop where
  items : ∀ l, ReflTransGen h'.Shown v (.list l) →
    (h'.items l).map (relabel name) = h.items (name l)
  apart : ∀ l m, ReflTransGen h'.Shown v (.list l) → ReflTransGen h'.Shown (.list l) (.list m) →
    name l = name m → l = m

namespace Copies

variable {h' : Heap}

lemma spells (hcopy : h'.Copies h name v)
    (hs : h.Spells Guarded ∅ (v.relabel name) s) : h'.Spells Guarded ∅ v s := by
  refine hs.transfer name (fun A A' w => A = name '' A' ∧ ReflTransGen h'.Shown v w ∧
    ∀ a ∈ A', ReflTransGen h'.Shown v (.list a) ∧ ReflTransGen h'.Shown (.list a) w) ?_ ?_
    ⟨(image_empty name).symm, .refl, fun _ ha => absurd ha (notMem_empty _)⟩
  · rintro A A' l ⟨rfl, -, hA'⟩
    refine ⟨?_, fun hl => mem_image_of_mem name hl⟩
    rintro ⟨a, ha, hname⟩
    obtain ⟨hfrom, hto⟩ := hA' a ha
    rwa [← hcopy.apart a l hfrom hto hname]
  · rintro A A' l ⟨rfl, hreach, hA'⟩ -
    refine ⟨hcopy.items l hreach, fun w hw => ?_⟩
    refine ⟨(image_insert_eq).symm, hreach.tail (.item hw), ?_⟩
    rintro a (rfl | ha)
    · exact ⟨hreach, .single (.item hw)⟩
    · obtain ⟨hfrom, hto⟩ := hA' a ha
      exact ⟨hfrom, hto.tail (.item hw)⟩

section

variable (hcopy : h'.Copies h name v)
  (hfree : ∀ i, ¬ ReflTransGen h.Shown (v.relabel name) (.host i))
include hcopy hfree

lemma shown (hreach : ReflTransGen h'.Shown v w) :
    ReflTransGen h.Shown (v.relabel name) (w.relabel name) := by
  induction hreach with
  | refl => exact .refl
  | tail hreach hshown ih =>
    cases hshown with
    | item hw =>
      have hmem := mem_map_of_mem (f := relabel name) hw
      rw [hcopy.items _ hreach] at hmem
      exact ih.tail (.item hmem)
    | ofBag => exact absurd ih (hfree _)

lemma hostFree (i : HostId) : ¬ ReflTransGen h'.Shown v (.host i) :=
  fun hreach => hfree i (hcopy.shown hfree hreach)

end

end Copies

/-- Where no host object is shown, every value has a text. It is the join by the plain rule if no
list stands inside itself, and in any case the join by the rule that passes over the lists around.
Giving places of a shared list copies of their own leaves it as it is. -/
theorem display_is_guarded_join {h : Heap} {v : Value}
    (hfree : ∀ i, ¬ ReflTransGen h.Shown v (.host i)) (slots : Array Slot) :
    ∃ s out, h.display v slots = some (s, out) ∧
      (∀ s', h.Spells Guarded ∅ v s' ↔ s' = s) ∧
      ((∀ l, ReflTransGen h.Shown v (.list l) → ¬ TransGen h.Shown (.list l) (.list l)) →
        ∀ s', h.Spells Plain ∅ v s' ↔ s' = s) ∧
      ∀ {h' : Heap} {name : ListId → ListId} {v' : Value}, h'.Copies h name v' →
        v'.relabel name = v → ∃ out', h'.display v' slots = some (s, out') := by
  obtain ⟨s, hgives, hspells⟩ := exists_text hfree
  obtain ⟨out, hout⟩ := hgives slots
  have honly {cut : Set ListId → ListId → Prop} (hs : h.Spells cut ∅ v s) (s' : String) :
      h.Spells cut ∅ v s' ↔ s' = s :=
    ⟨fun hs' => hs'.unique hs, fun heq => heq ▸ hs⟩
  refine ⟨s, out, hout, honly hspells, fun hacyclic => honly (hspells.plain hacyclic), ?_⟩
  rintro h' name v' hcopy rfl
  obtain ⟨s', hgives', hspells'⟩ := exists_text (hcopy.hostFree hfree)
  cases hspells'.unique (hcopy.spells hspells)
  exact hgives' slots

lemma ne_host_of_shown (hitems : ∀ l, ∀ w ∈ h.items l, ∀ i, w ≠ .host i) (hv : ∀ i, v ≠ .host i)
    (hreach : ReflTransGen h.Shown v w) (i : HostId) : w ≠ .host i := by
  induction hreach generalizing i with
  | refl => exact hv i
  | tail _ hshown ih =>
    cases hshown with
    | item hw => exact hitems _ _ hw i
    | ofBag => exact absurd rfl (ih _)

end Heap

namespace Bunch

open Heap

/-- A list with one list in two places, and one that holds itself. -/
def heap : Heap where
  lists := #[[.list ⟨1⟩, .list ⟨1⟩, .list ⟨2⟩], [.text "x", .null], [.text "y", .list ⟨2⟩]]

def copied : Heap where
  lists := #[[.list ⟨1⟩, .list ⟨3⟩, .list ⟨2⟩], [.text "x", .null], [.text "y", .list ⟨2⟩],
    [.text "x", .null]]

def original (l : ListId) : ListId :=
  if l = ⟨3⟩ then ⟨1⟩ else l

lemma hostFree (l : ListId) (i : HostId) : ¬ ReflTransGen heap.Shown (.list l) (.host i) := by
  refine fun hreach => ne_host_of_shown ?_ (by simp) hreach i rfl
  rintro ⟨_ | _ | _ | n⟩ w hw i rfl <;> simp [heap, items] at hw

lemma not_shown (hl : h.items l = [.text "x", .null]) :
    ¬ TransGen h.Shown (.list l) (.list m) := by
  intro hreach
  obtain ⟨w, hshown, hrest⟩ := TransGen.head'_iff.mp hreach
  cases hshown with
  | item hw =>
    rw [hl] at hw
    simp only [mem_cons, not_mem_nil, or_false] at hw
    rcases hw with rfl | rfl <;> rcases hrest.cases_head with heq | ⟨u, hshown, -⟩ <;>
      first | cases heq | cases hshown

lemma eq_of_shown (hl : h.items l = [.text "x", .null])
    (hreach : ReflTransGen h.Shown (.list l) (.list m)) : m = l :=
  list.inj ((reflTransGen_iff_eq_or_transGen.mp hreach).resolve_right (not_shown hl))

lemma copies : copied.Copies heap original (.list ⟨0⟩) where
  items := by
    rintro ⟨_ | _ | _ | _ | n⟩ - <;> rfl
  apart := by
    intro l m _ hlm hname
    by_cases hl : l = ⟨1⟩ ∨ l = ⟨3⟩
    · rcases hl with rfl | rfl <;> exact (eq_of_shown rfl hlm).symm
    · unfold original at hname
      grind

theorem display_is_guarded_join_bunch :
    heap.Spells Guarded ∅ (.list ⟨0⟩) "x,,x,,y," ∧ heap.Spells Plain ∅ (.list ⟨1⟩) "x," ∧
      ∃ out, copied.display (.list ⟨0⟩) #[] = some ("x,,x,,y,", out) := by
  obtain ⟨s, out, hrun, hguarded, -, hcopy⟩ := display_is_guarded_join (hostFree ⟨0⟩) #[]
  obtain ⟨s', out', hrun', -, hplain, -⟩ := display_is_guarded_join (hostFree ⟨1⟩) #[]
  have hs : some s = some _ := (congrArg (Option.map Prod.fst) hrun).symm.trans rfl
  have hs' : some s' = some _ := (congrArg (Option.map Prod.fst) hrun').symm.trans rfl
  cases hs
  cases hs'
  refine ⟨(hguarded _).mpr rfl, (hplain ?_ _).mpr rfl, hcopy copies rfl⟩
  intro l hreach
  cases eq_of_shown rfl hreach
  exact not_shown rfl

end Bunch

namespace Heap

/-! ## Items that are printed on their own -/

section Joined

lemma Spells.length_le (hs : h.Spells Guarded A v s) (hAB : A ⊆ B)
    (hs' : h.Spells Guarded B v s') : s'.length ≤ s.length := by
  induction hs generalizing B s' with
  | own hv => exact Nat.le_of_eq (congrArg String.length (hs'.unique (.own hv)))
  | again hl => exact Nat.le_of_eq (congrArg String.length (spells_list_of_mem (hAB hl) hs'))
  | list text _ _ ih =>
    cases hs' with
    | own hv' => cases hv'
    | again => exact Nat.zero_le _
    | list text' _ htext' =>
      refine length_joinTexts_le fun w hw hn => ?_
      exact ih w hw hn (insert_subset_insert hAB) (htext' w hw hn)

lemma isNullish_of_textCalls (hpath : ReflTransGen h.TextCalls p ⟨seen, .list l⟩) :
    p.value.isNullish = false := by
  rcases hpath.cases_head with rfl | ⟨q, hcall, -⟩
  · rfl
  · cases hcall with
    | @inside _ v _ _ _ _ hc => cases v <;> first | rfl | cases hc
    | ofBag => rfl

/-- A text that comes to a list of two items or more is shorter once that list is around. The way to
the list enters no list twice. -/
lemma Spells.length_lt (hmany : 2 ≤ (h.items l).length)
    (hpath : ReflTransGen h.TextCalls p ⟨seen, .list l⟩) (hA : ∀ a ∈ A, .list a ∈ p.seen)
    (hl : l ∉ A) (hs : h.Spells Guarded A p.value s)
    (hs' : h.Spells Guarded (insert l A) p.value s') : s'.length < s.length := by
  have hat {s s' : String} {A : Set ListId} (hl : l ∉ A) (hs : h.Spells Guarded A (.list l) s)
      (hs' : h.Spells Guarded (insert l A) (.list l) s') : s'.length < s.length := by
    rw [spells_list_of_mem (mem_insert l A) hs']
    cases hs with
    | own hv => cases hv
    | again hmem => exact absurd hmem hl
    | list text => exact length_joinTexts_pos hmany
  induction hpath using ReflTransGen.head_induction_on generalizing A s s' with
  | refl => exact hat hl hs hs'
  | head hcall hrest ih =>
    cases hcall with
    | ofBag => cases hs with | own hv => cases hv
    | @inside _ v w c before after hc hnew hreads =>
      cases c with
      | object o => simp [shownItems] at hreads
      | list m =>
        cases container?_inj hc (rfl : (Value.list m).container? = _)
        by_cases hml : m = l
        · subst hml
          exact hat hl hs hs'
        have hm : m ∉ A := fun hmem => hnew (hA m hmem)
        have hw : w ∈ h.items m := by
          rw [show h.items m = _ from hreads]
          simp
        cases hs with
        | own hv => cases hv
        | again hmem => exact absurd hmem hm
        | list text _ htext =>
          cases hs' with
          | own hv => cases hv
          | again hmem => exact absurd (hmem.resolve_left hml) hm
          | list text' _ htext' =>
            -- One item leads on to `l`, and no other one gets longer.
            have hn := isNullish_of_textCalls hrest
            refine length_joinTexts_lt (fun u hu hun => ?_) hw hn ?_
            · refine (htext u hu hun).length_le ?_ (htext' u hu hun)
              exact insert_subset_insert (subset_insert l A)
            · refine ih ?_ ?_ (htext w hw hn) (insert_comm m l A ▸ htext' w hw hn)
              · rintro a (rfl | ha)
                · exact mem_cons_self
                · exact mem_cons_of_mem _ (hA a ha)
              · rintro (rfl | hmem)
                · exact hml rfl
                · exact hl hmem

lemma joinTexts_eq_empty (hitems : h.items l = [.list m]) (hm : m ∈ A)
    (htext : ∀ w ∈ h.items l, w.isNullish = false → h.Spells Guarded A w (text w)) :
    joinTexts text (h.items l) = "" := by
  have hblank := spells_list_of_mem hm (htext (.list m) (by simp [hitems]) rfl)
  simp [joinTexts, hitems, isNullish, hblank]

lemma Spells.insert_single (hitems : h.items l = [.list m]) (hm : m ∈ A)
    (hs : h.Spells Guarded A v s) : h.Spells Guarded (insert l A) v s := by
  induction hs with
  | own hv => exact .own hv
  | again hl => exact .again (mem_insert_of_mem l hl)
  | @list A k text hk htext ih =>
    by_cases hkl : k = l
    · subst hkl
      rw [joinTexts_eq_empty hitems (mem_insert_of_mem k hm) htext]
      exact .again (mem_insert k A)
    · refine .list text (fun hmem => hk (hmem.resolve_left hkl)) fun w hw hn => ?_
      rw [insert_comm]
      exact ih w hw hn (mem_insert_of_mem k hm)

/-- The only item of a list prints the same with the list around it and without. -/
lemma Spells.single (hitems : h.items l = [w]) (hs : h.Spells Guarded ∅ w s) :
    h.Spells Guarded {l} w s := by
  cases hs with
  | own hv => exact .own hv
  | again hmem => exact absurd hmem (notMem_empty _)
  | @list _ m text _ htext =>
    by_cases hml : m = l
    · subst hml
      rw [joinTexts_eq_empty hitems (mem_insert m ∅) htext]
      exact .again rfl
    · refine .list text hml fun w hw hn => ?_
      have hwhole := (htext w hw hn).insert_single hitems (mem_insert m ∅)
      rwa [insert_comm, insert_empty_eq] at hwhole

lemma Spells.inside (hacyclic : ¬ TransGen h.Shown (.list l) (.list l))
    (hv : h.Shown (.list l) v) (hs : h.Spells Guarded ∅ v s) : h.Spells Guarded {l} v s := by
  refine hs.exchange (R := fun A A' w => A' = insert l A ∧ TransGen h.Shown (.list l) w) ?_ ?_
    ⟨(insert_empty_eq l).symm, .single hv⟩
  · rintro A A' k ⟨rfl, hreach⟩
    refine ⟨fun hk => mem_insert_of_mem l hk, ?_⟩
    rintro (rfl | hk)
    · exact absurd hreach hacyclic
    · exact hk
  · rintro A A' k ⟨rfl, hreach⟩ - w hw
    exact ⟨insert_comm k l A, hreach.tail (.item hw)⟩

/-- Printing the items of a list on their own gives the text of the list, unless the list stands
inside itself and has two items or more. -/
lemma joinTexts_eq_iff
    (htext : ∀ w ∈ h.items l, w.isNullish = false → h.Spells Guarded ∅ w (text w))
    (htext' : ∀ w ∈ h.items l, w.isNullish = false → h.Spells Guarded {l} w (text' w)) :
    joinTexts text (h.items l) = joinTexts text' (h.items l) ↔
      ¬ TransGen h.Shown (.list l) (.list l) ∨ (h.items l).length ≤ 1 := by
  constructor
  · intro heq
    by_contra hnot
    obtain ⟨hcycle, hmany⟩ := not_or.mp hnot
    obtain ⟨w, hshown, hback⟩ := TransGen.head'_iff.mp (not_not.mp hcycle)
    obtain ⟨seen, hpath⟩ := textCalls_of_shown hback
    cases hshown with
    | item hw =>
      have hn := isNullish_of_textCalls hpath
      have hlt : (joinTexts text' (h.items l)).length < (joinTexts text (h.items l)).length := by
        refine length_joinTexts_lt (fun u hu hun => ?_) hw hn ?_
        · exact (htext u hu hun).length_le (empty_subset _) (htext' u hu hun)
        · refine Spells.length_lt (by omega) hpath (fun a ha => absurd ha (notMem_empty a))
            (notMem_empty l) (htext w hw hn) ?_
          rw [insert_empty_eq]
          exact htext' w hw hn
      rw [heq] at hlt
      exact absurd hlt (Nat.lt_irrefl _)
  · intro hsame
    refine joinTexts_congr fun w hw hn => ?_
    rcases hsame with hacyclic | hfew
    · exact ((htext w hw hn).inside hacyclic (.item hw)).unique (htext' w hw hn)
    · have hitems : h.items l = [w] := by
        obtain ⟨before, after, hsplit⟩ := append_of_mem hw
        rw [hsplit] at hfew ⊢
        simp only [length_append, length_cons] at hfew
        rw [eq_nil_of_length_eq_zero (l := before) (by omega),
          eq_nil_of_length_eq_zero (l := after) (by omega)]
        rfl
      exact ((htext w hw hn).single hitems).unique (htext' w hw hn)

end Joined

end Heap

/-! ## Three ways to print a list -/

section Evaluated

open Program

variable {env : Environment S}

lemma Program.Finds.run_mapM {f : γ → ExceptT ε (Program S) α} {xs : List γ}
    (hf : ∀ x ∈ xs, (f x).run.Finds h (.ok (g x))) : (xs.mapM f).run.Finds h (.ok (xs.map g)) := by
  induction xs with
  | nil => exact .pure _
  | cons x xs ih =>
    obtain ⟨hx, hxs⟩ := forall_mem_cons.mp hf
    rw [mapM_cons]
    exact Finds.run_bind hx (Finds.run_bind (ih hxs) (.pure _))

lemma Eval.finds_ask {a : q.Answer} (ha : Reading.Gives (q.reading h) a) :
    (ask (S := S) q).run.Finds h (.ok a) := by
  obtain ⟨out, hout⟩ := ha #[]
  have hanswer : q.answer h = some (a, out.toList) := by
    rw [Query.answer, hout]
    rfl
  exact Finds.run_lift (finds_read hanswer)

lemma Eval.finds_itemText (hs : v.isNullish = false → Reading.Gives (h.display v) s) :
    (itemText (S := S) v).run.Finds h (.ok (if v.isNullish then "" else s)) := by
  unfold itemText
  cases hn : v.isNullish with
  | true => exact .pure _
  | false => exact finds_ask (q := .display v) (hs hn)

/-- Wherever the heap is `h`, an expression has a value, and only looks for it. -/
def Expr.LooksUp (env : Environment S) (h : Heap) (e : Expr) (v : Value) : Prop :=
  ∀ (call : Caller S) (w : World S), w.heap = h →
    ∃ slots, (e.eval env).run.run call w = some (.ok v, w.trackAll slots)

lemma Expr.looksUp_of_finds {e : Expr} (he : (e.eval env).run.Finds h (.ok v)) :
    e.LooksUp env h v := by
  rintro call w rfl
  exact he.run call

/-- A list prints the same with `toString` and when it is added to a text. With `join` it prints the
same unless it stands inside itself and has two items or more, for then its items are printed as if
they were not inside of it. -/
theorem Expr.join_agrees_iff {e : Expr} {l : ListId}
    (he : (e.eval env).run.Finds h (.ok (.list l)))
    (hfree : ∀ i, ¬ ReflTransGen h.Shown (.list l) (.host i)) :
    ∃ joined shown,
      (Expr.call (.member e "join") []).LooksUp env h (.text joined) ∧
      (Expr.call (.member e "toString") []).LooksUp env h (.text shown) ∧
      (Expr.binary .add (.text "") e).LooksUp env h (.text shown) ∧
      (joined = shown ↔
        ¬ TransGen h.Shown (.list l) (.list l) ∨ (h.items l).length ≤ 1) := by
  obtain ⟨shown, hshown, hspells⟩ := Heap.exists_text hfree
  have hitem : ∀ w ∈ h.items l, ∃ s, Reading.Gives (h.display w) s ∧ h.Spells Heap.Guarded ∅ w s :=
    fun w hw => Heap.exists_text fun i hi => hfree i (.head (.item hw) hi)
  choose! text htext using hitem
  have hdisplay := Eval.finds_ask (S := S) (q := .display (.list l)) hshown
  have hempty : (Eval.display (S := S) (.text "")).run.Finds h (.ok "") :=
    Finds.run_lift (finds_read (Query.answer_display fun _ => rfl))
  have hitems := Eval.finds_ask (S := S) (q := .items l) (Reading.gives_readItems h l)
  have hparts := Finds.run_mapM (ε := EvalError) fun w hw =>
    Eval.finds_itemText (S := S) fun _ => (htext w hw).1
  refine ⟨Heap.joinTexts text (h.items l), shown, looksUp_of_finds ?_, looksUp_of_finds ?_,
    looksUp_of_finds ?_, ?_⟩
  · refine Finds.run_bind he (Finds.run_bind (.pure _) ?_)
    exact Finds.run_bind (.pure _) (Finds.run_bind hitems (Finds.run_bind hparts (.pure _)))
  · refine Finds.run_bind he (Finds.run_bind (.pure _) ?_)
    exact Finds.run_bind hdisplay (.pure _)
  · refine Finds.run_bind (.pure _) (Finds.run_bind he ?_)
    refine Finds.run_bind hempty (Finds.run_bind hdisplay ?_)
    rw [String.empty_append]
    exact .pure _
  · cases hspells with
    | own hv => cases hv
    | again hmem => exact absurd hmem (notMem_empty l)
    | list text' _ htext' =>
      exact Heap.joinTexts_eq_iff (fun w hw _ => (htext w hw).2) fun w hw hn =>
        insert_empty_eq (β := Set ListId) l ▸ htext' w hw hn

end Evaluated

def Ouroboros : Signature where
  Code := Unit
  Reply _ := Unit
  State := Unit

namespace Ouroboros

def heap : Heap where
  lists := #[[.text "a", .list ⟨0⟩]]

def env : Environment Ouroboros where
  lookup _ := pure (some (.list ⟨0⟩))
  apply _ _ := pure (.ok .undefined)
  invoke _ _ _ := pure (.ok .undefined)

theorem join_agrees_iff_ouroboros : ∃ joined shown,
    (Expr.call (.member (.name "l") "join") []).LooksUp env heap (.text joined) ∧
    (Expr.call (.member (.name "l") "toString") []).LooksUp env heap (.text shown) ∧
    joined ≠ shown := by
  have hfree (i : HostId) : ¬ ReflTransGen heap.Shown (.list ⟨0⟩) (.host i) := by
    refine fun hreach => Heap.ne_host_of_shown ?_ (by simp) hreach i rfl
    rintro ⟨_ | n⟩ w hw i rfl <;> simp [heap, Heap.items] at hw
  have hname : ((Expr.name "l").eval env).run.Finds heap (.ok (.list ⟨0⟩)) := ⟨[], rfl⟩
  obtain ⟨joined, shown, hjoined, hshown, -, hiff⟩ := Expr.join_agrees_iff hname hfree
  refine ⟨joined, shown, hjoined, hshown, fun heq => ?_⟩
  rcases hiff.mp heq with hacyclic | hfew
  · exact hacyclic (.single (.item (by simp [heap, Heap.items])))
  · exact absurd hfew (by decide)

/-- Joined, the list shows its text a second time. -/
theorem join_repeats_itself :
    let answer (e : Expr) := ((e.eval env).run.run (fun _ _ => none) { heap, state := () }).map Prod.fst
    answer (.call (.member (.name "l") "join") []) = some (.ok (.text "a,a,")) ∧
      answer (.call (.member (.name "l") "toString") []) = some (.ok (.text "a,")) ∧
      answer (.binary .add (.text "") (.name "l")) = some (.ok (.text "a,")) :=
  ⟨rfl, rfl, rfl⟩

end Ouroboros

end LiveMarkup
