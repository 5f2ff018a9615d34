import LiveMarkup.Proofs.Naming
import LiveMarkup.Proofs.Placement

/-!
# Text between slots

What stands between the slots of a component makes up its default slot, be it nothing but blanks,
and the default slot that is made up so wins over one that is spelled out. The other slots do not
depend on it.
-/

namespace LiveMarkup.Compile

open Meaning Render

variable {ns ns' : List Node} {named : List (String × List Instruction)}
  {d : Option (List Instruction)} {b : Bool} {tag attrs : String} {is : List Instruction}

def texts : List Node → List Instruction
  | [] => []
  | .text s :: ns => .text s :: texts ns
  | _ :: ns => texts ns

def SlotsAndTexts (ns : List Node) : Prop :=
  ∀ n ∈ ns, isSlot n = true ∨ ∃ s, n = .text s

/-- The slots that are spelled out, and behind them the default slot that the texts make up. -/
def slotsWithTexts (named : List (String × List Instruction)) (ns : List Node) :
    List (String × List Instruction) :=
  if texts ns = [] then named else named ++ [("default", texts ns)]

/-- The default slot behind `d` once the texts of the nodes are read. -/
def withTexts (d : Option (List Instruction)) (ns : List Node) : Option (List Instruction) :=
  if texts ns = [] then d else some (d.getD [] ++ texts ns)

lemma withTexts_cons (s : String) :
    withTexts (some (d.getD [] ++ [.text s])) ns = withTexts d (.text s :: ns) := by
  simp only [withTexts, texts, Option.getD_some, List.append_assoc, List.singleton_append,
    reduceCtorEq, if_false]
  split
  next hnone => rw [hnone]
  next => rfl

lemma finish_withTexts : SlotParts.finish ⟨named, withTexts none ns⟩ = slotsWithTexts named ns := by
  rw [withTexts, slotsWithTexts]
  split <;> simp [SlotParts.finish]

/-- Texts make no difference to the slots that are spelled out, nor to whether they compile. -/
lemma slotBodies_eq (h : SlotsAndTexts ns) : slotBodies ⟨named, d⟩ ns =
      (slotBodies ⟨named, none⟩ (ns.filter isSlot)).map fun p => ⟨p.named, withTexts d ns⟩ := by
  induction ns generalizing named d with
  | nil => rfl
  | cons n ns ih =>
    obtain ⟨hn, hns⟩ := List.forall_mem_cons.mp h
    obtain hslot | ⟨s, rfl⟩ := hn
    · cases n with
      | component tag attrs children =>
        obtain rfl : tag = "x-slot" := by simpa [isSlot] using hslot
        rw [List.filter_cons_of_pos hslot, slotBodies, slotBodies]
        cases nodes false children with
        | error e => rfl
        | ok body => exact ih hns
      | _ => cases hslot
    · rw [slotBodies_cons rfl, List.filter_cons_of_neg Bool.false_ne_true, ← withTexts_cons]
      exact ih hns

lemma get?_fragments_slotsWithTexts (host : Host S H) (scope : Scope) (name : String) :
    (fragments host scope (slotsWithTexts named ns)).get? name =
      if name = "default" ∧ texts ns ≠ [] then some (.body (texts ns) scope host.self)
      else (fragments host scope named).get? name := by
  by_cases htexts : texts ns = []
  · simp [slotsWithTexts, htexts]
  · have hlast : fragments host scope (slotsWithTexts named ns) =
        (fragments host scope named).insert "default" (.body (texts ns) scope host.self) := by
      simp [slotsWithTexts, htexts, fragments, Table.ofList, Table.insertAll]
    rw [hlast, Table.get?_insert]
    simp [htexts]

/-- Text between the slots of a component changes nothing but its default slot, which is then what
the text is compiled to, whatever slots are spelled out. -/
theorem text_fills_default_slot (h : SlotsAndTexts ns) (h' : SlotsAndTexts ns')
    (hslots : ns.filter isSlot = ns'.filter isSlot)
    (hcompile : node b (.component tag attrs ns) = .ok is) :
    ∃ values parts, slotBodies {} (ns.filter isSlot) = .ok parts ∧
      is = [.component (componentName tag) values (slotsWithTexts parts.named ns)] ∧
      node b (.component tag attrs ns') =
        .ok [.component (componentName tag) values (slotsWithTexts parts.named ns')] ∧
      ∀ {S : Signature} {H : Type} (host : Host S H) (scope : Scope),
        let received (ns : List Node) := fragments host scope (slotsWithTexts parts.named ns)
        (∀ name ≠ "default", (received ns).get? name = (received ns').get? name) ∧
        (received ns).get? "default" =
          if texts ns = [] then (fragments host scope parts.named).get? "default"
          else some (.body (texts ns) scope host.self) := by
  rw [node, slotBodies_eq h] at hcompile
  obtain ⟨values, hvalues, hrest⟩ := ok_of_bind hcompile
  cases hparts : slotBodies {} (ns.filter isSlot) with
  | error e =>
    rw [hparts] at hrest
    cases hrest
  | ok parts =>
    rw [hparts] at hrest
    cases hrest
    have hother : node b (.component tag attrs ns') = .ok [.component (componentName tag) values
        (slotsWithTexts parts.named ns')] := by
      rw [node, hvalues, slotBodies_eq h', ← hslots, hparts, ← finish_withTexts]
      rfl
    refine ⟨values, parts, rfl, by rw [finish_withTexts], hother, fun host scope => ⟨?_, ?_⟩⟩
    · intro name hname
      rw [get?_fragments_slotsWithTexts, get?_fragments_slotsWithTexts]
      simp [hname]
    · rw [get?_fragments_slotsWithTexts]
      simp

/-- A blank in front of the only slot of a card does not change that slot. -/
theorem text_fills_default_slot_card :
    let slot := Node.component "x-slot" "name=\"a\"" [.text "hi"]
    ∃ values slots slots',
      node false (.component "x-card" "" [slot]) = .ok [.component "card" values slots] ∧
      node false (.component "x-card" "" [.text " ", slot]) = .ok [.component "card" values slots'] ∧
      ∀ {S : Signature} {H : Type} (host : Host S H) (scope : Scope),
        (fragments host scope slots).get? "a" = (fragments host scope slots').get? "a" := by
  intro slot
  have h : SlotsAndTexts [slot] := by simp [SlotsAndTexts, slot, isSlot]
  have h' : SlotsAndTexts [.text " ", slot] := by simp [SlotsAndTexts, slot, isSlot]
  have hcompile : node false (.component "x-card" "" [slot]) = .ok _ := rfl
  obtain ⟨values, parts, -, his, hother, hhost⟩ := text_fills_default_slot h h' rfl hcompile
  exact ⟨values, _, _, his ▸ hcompile, hother, fun host scope =>
    (hhost host scope).1 "a" (by decide)⟩

/-- A blank in front of a default slot is shown in its place. -/
theorem blank_replaces_default_slot :
    let slot := Node.component "x-slot" "" [.text "hi"]
    node false (.component "x-card" "" [slot]) =
        .ok [.component "card" [] [("default", [.text "hi"])]] ∧
      node false (.component "x-card" "" [.text " ", slot]) =
        .ok [.component "card" [] [("default", [.text "hi"]), ("default", [.text " "])]] ∧
      ∀ {S : Signature} {H : Type} (host : Host S H) (scope : Scope),
        (fragments host scope [("default", [.text "hi"]), ("default", [.text " "])]).get? "default" =
          some (.body [.text " "] scope host.self) :=
  ⟨rfl, rfl, fun _ _ => rfl⟩

end LiveMarkup.Compile
