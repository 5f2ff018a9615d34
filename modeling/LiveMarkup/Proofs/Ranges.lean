import LiveMarkup.Proofs.Confinement
import LiveMarkup.Proofs.Dependencies
import LiveMarkup.Proofs.Stopping
import LiveMarkup.Proofs.TreePrinting

/-!
# Positions stay in range

Rendering takes positions from three places. The labels of a switch are fixed by the compiler, which
puts each of them where the body ends at that time, and bodies only grow. The bounds of a slice are
arguments, which are brought into the sequence. And loops count their entries.

The depth of a loop is read back from the `loop` variable around it, which a template may name
itself. So it can be any number, and the depth behind the greatest one is zero.
-/

namespace LiveMarkup

open List Compile

variable {S : Signature} {H : Type} {i j : Instruction} {is js : List Instruction}

/-! ## Instructions inside others -/

def Instruction.parts : Instruction → List (List Instruction)
  | .choose branches otherwise => otherwise :: branches.map Prod.snd
  | .switch _ _ body | .foreach _ _ _ body | .push _ body => [body]
  | .component _ _ bodies | .extendLayout _ bodies => bodies.map Prod.snd
  | .namedComponent _ _ body => body.toList
  | _ => []

/-- The first instruction is one of the body, or is inside one of them, however deep. -/
inductive Instruction.In (i : Instruction) : List Instruction → Prop
  | here {is : List Instruction} (h : i ∈ is) : i.In is
  | inside {is part : List Instruction} {j : Instruction} (hj : j ∈ is) (hpart : part ∈ j.parts)
      (h : i.In part) : i.In is

/-- The labels of an instruction point into its body, or right behind it. -/
def Instruction.LabelsFit : Instruction → Prop
  | .switch _ labels body => ∀ l ∈ labels, l.2 ≤ body.length
  | _ => True

namespace Compile

def Fitting (is : List Instruction) : Prop :=
  ∀ i : Instruction, i.In is → i.LabelsFit

lemma fitting_nil : Fitting [] := by
  rintro i (h | ⟨hj, -, -⟩)
  · cases h
  · cases hj

lemma Fitting.append (hi : Fitting is) (hj : Fitting js) : Fitting (is ++ js) := by
  rintro i (h | ⟨h, hpart, hin⟩)
  · exact (mem_append.mp h).elim (hi i <| .here ·) (hj i <| .here ·)
  · exact (mem_append.mp h).elim (hi i <| .inside · hpart hin) (hj i <| .inside · hpart hin)

lemma Fitting.single (hi : i.LabelsFit) (hparts : ∀ part ∈ i.parts, Fitting part) :
    Fitting [i] := by
  rintro j (h | ⟨h, hpart, hin⟩)
  · exact mem_singleton.mp h ▸ hi
  · obtain rfl := mem_singleton.mp h
    exact hparts _ hpart j hin

lemma Fitting.leaf (hi : i.LabelsFit) (hparts : i.parts = []) : Fitting [i] :=
  .single hi (hparts ▸ nofun)

lemma fitting_of_isFlat (h : i.isFlat = true) : Fitting [i] := by
  cases i <;> first | exact .leaf trivial rfl | cases h

lemma fitting_bodies {bodies : List (κ × List Instruction)} (h : ∀ e ∈ bodies, Fitting e.2) :
    ∀ part ∈ bodies.map Prod.snd, Fitting part := by
  intro part hpart
  obtain ⟨e, he, rfl⟩ := mem_map.mp hpart
  exact h e he

lemma hereditary_fitting : Hereditary fun _ => Fitting where
  nil := fitting_nil
  append := .append
  flat := fitting_of_isFlat
  inject _ _ := .leaf trivial rfl
  leave := .leaf trivial rfl
  choose hbranches hbody := .single trivial (forall_mem_cons.mpr ⟨hbody, fitting_bodies hbranches⟩)
  switch hlabels hbody := .single hlabels (forall_mem_singleton.mpr hbody)
  foreach hbody := .single trivial (forall_mem_singleton.mpr hbody)
  push hbody := .single trivial (forall_mem_singleton.mpr hbody)
  component hslots := .single trivial (fitting_bodies hslots)
  namedComponent hbody := .single trivial fun is his => hbody is (Option.mem_toList.mp his)
  extendLayout hsections := .single trivial (fitting_bodies hsections)

end Compile

/-! ## Positions while rendering -/

namespace Render

lemma ends_switchStart (hlabels : ∀ l ∈ labels, l.2 ≤ n) (hfallback : ∀ k ∈ fallback, k ≤ n) :
    Ends (fun start => ∀ k ∈ start, k ≤ n) (switchStart host scope subject labels fallback) := by
  induction labels generalizing fallback with
  | nil => exact ends_pure hfallback
  | cons l rest ih =>
    obtain ⟨hl, hrest⟩ := forall_mem_cons.mp hlabels
    match l with
    | (none, position) =>
      refine ih hrest fun k hk => ?_
      cases fallback with
      | none => exact Option.some.inj hk ▸ hl
      | some k' => exact hfallback k hk
    | (some test, position) =>
      refine ends_bind (ends_any _) fun v _ => ?_
      split
      · exact ends_pure fun k hk => Option.some.inj hk ▸ hl
      · exact ih hrest hfallback

lemma iterate_congr (h : ∀ k (hk : k < entries.length) out, body (index + k) (entries.get ⟨k, hk⟩)
    out = body' (index + k) (entries.get ⟨k, hk⟩) out) (out : String) :
    iterate body index out entries = iterate body' index out entries := by
  induction entries generalizing index out with
  | nil => rfl
  | cons entry rest ih =>
    have hfirst : body index entry out = body' index entry out := h 0 (Nat.zero_lt_succ _) out
    have hrest (out : String) : iterate body (index + 1) out rest =
        iterate body' (index + 1) out rest := by
      refine ih (fun k hk out => ?_) out
      have hk' := h (k + 1) (Nat.succ_lt_succ hk) out
      rwa [← Nat.add_assoc, Nat.add_right_comm] at hk'
    rw [iterate, iterate, hfirst]
    refine bind_congr fun r => ?_
    match r with
    | (out, .leave) => rfl
    | (out, .onward) => exact hrest out

lemma perform_countAfter (call : Caller S) (n : Nat) (w : World S) :
    (Op.read (.countAfter n)).perform call w =
      if n + 1 < 2 ^ 64 then some (n + 1, w) else none := by
  show Option.map _ (Option.map _ ((if n + 1 < 2 ^ 64 then pure (n + 1) else Reading.overflow :
    Reading Nat) #[])) = _
  split <;> rfl

/-- What a loop inside another one does to know its depth. -/
def depthAfter (d : Option Value) : Program S (Except RenderError Nat) :=
  .step (.read (.number (d.getD .undefined))) fun x =>
    .step (.read (.countAfter (Decimal.toIndex x))) fun n => .done (.ok n)

lemma run_loopDepth_object (outer : ObjectId) (alarm : Alarm S)
    (h : (Program.read (.number (((w.heap.fields outer).get? "depth").getD .undefined)) :
      Program S Float).run call w = some (x, w')) :
    (Decimal.toIndex x + 1 < 2 ^ 64 ∧ (loopDepth (some (.object outer))).run.run call w =
      some (.ok (Decimal.toIndex x + 1), w')) ∨
    (Decimal.toIndex x + 1 = 2 ^ 64 ∧ (loopDepth (some (.object outer))).run.run call w = none ∧
      (loopDepth (some (.object outer))).run.overflows call alarm w = true) := by
  have hword : Decimal.toIndex x < 2 ^ 64 := x.toUInt64.toNat_lt
  rw [Program.read, Program.run_perform] at h
  have hrun : (loopDepth (some (.object outer))).run.run call w =
      (depthAfter ((w.heap.fields outer).get? "depth")).run call w := rfl
  have hstops : (loopDepth (some (.object outer))).run.overflows call alarm w =
      (depthAfter ((w.heap.fields outer).get? "depth")).overflows call alarm w := rfl
  have hcount := perform_countAfter call (Decimal.toIndex x) w'
  rw [hrun, hstops]
  by_cases hlt : Decimal.toIndex x + 1 < 2 ^ 64
  · rw [if_pos hlt] at hcount
    refine .inl ⟨hlt, ?_⟩
    simp only [depthAfter, Program.run, h, hcount]
  · rw [if_neg hlt] at hcount
    have hfull : Decimal.toIndex x + 1 = 2 ^ 64 := by omega
    refine .inr ⟨hfull, ?_, ?_⟩
    · simp only [depthAfter, Program.run, h, hcount]
    · simp only [depthAfter, Program.overflows, h, hcount]
      exact decide_eq_true hfull.ge

end Render

/-! ## Slices -/

namespace Eval

/-- Where a slice of a sequence begins and ends. -/
def sliceBounds (args : List Value) (len : Nat) : Eval S (Nat × Nat) := do
  let start ← relativeIndex args[0]? len 0
  let stop ← relativeIndex args[1]? len len
  return (start, max start stop)

lemma clampIndex_le (x : Float) (len : Nat) : clampIndex x len ≤ len := by
  unfold clampIndex
  split
  · exact Nat.zero_le len
  · dsimp only
    split
    · omega
    · exact Nat.min_le_right ..

lemma ends_relativeIndex (v : Option Value) (h : fallback ≤ len) :
    Program.Ends (fun r => ∀ n, r = .ok n → n ≤ len)
      (relativeIndex (S := S) v len fallback).run := by
  have hgiven (v : Value) : Program.Ends (fun r => ∀ n, r = .ok n → n ≤ len)
      (number (S := S) v >>= fun x => pure (clampIndex x len)).run := by
    refine Program.ends_bind (Program.ends_of_forall (P := fun _ => True) (fun _ => trivial) _) ?_
    rintro (e | x) -
    · exact fun n hn => nomatch hn
    · rintro n ⟨⟩
      exact clampIndex_le x len
  unfold relativeIndex
  split
  · rintro n ⟨⟩
    exact h
  · rintro n ⟨⟩
    exact h
  · exact hgiven _

lemma ends_sliceBounds (args : List Value) (len : Nat) :
    Program.Ends (fun r => ∀ b, r = .ok b → b.1 ≤ b.2 ∧ b.2 ≤ len)
      (sliceBounds (S := S) args len).run := by
  refine Program.ends_bind (ends_relativeIndex args[0]? (Nat.zero_le len)) ?_
  rintro (e | start) hstart
  · exact fun b hb => nomatch hb
  · refine Program.ends_bind (ends_relativeIndex args[1]? le_rfl) ?_
    rintro (e | stop) hstop
    · exact fun b hb => nomatch hb
    · rintro b ⟨⟩
      exact ⟨Nat.le_max_left .., Nat.max_le.mpr ⟨hstart start rfl, hstop stop rfl⟩⟩

lemma slice_eq_extract (xs : List α) (start stop : Nat) :
    slice xs start stop = xs.extract start (max start stop) := by
  rw [slice, extract_eq_take_drop]
  congr 1
  omega

end Eval

open Render Eval

/-- Rendering keeps to its ranges. In a compiled template every switch starts inside its body or
right behind it; slices begin before they end, inside the text or list, whatever the arguments are;
and loops run their body only at positions that there are. A loop inside another is one deeper than
the other says it is, if that is a word; if it is not, rendering stops there and has no result. -/
theorem Routine.positions_in_range {source : String} {r : Routine}
    (h : Routine.compile source = .ok r) (host : Host S H) (scope : Scope) :
    (∀ {subject labels body}, (Instruction.switch subject labels body).In r.body → ∀ v,
      Render.Ends (fun start => ∀ k ∈ start, k ≤ body.length)
        (switchStart host scope v labels none)) ∧
    (∀ s args, textMethod (S := S) s "slice" args = some (do
      let b ← sliceBounds args s.toList.length
      return .text (String.ofList (s.toList.extract b.1 b.2)))) ∧
    (∀ l args, listMethod (S := S) l "slice" args = some (do
      let items ← ask (.items l)
      let b ← sliceBounds args items.length
      let l ← ExceptT.lift (Program.newList (items.extract b.1 b.2))
      return .list l)) ∧
    (∀ args len, Program.Ends (fun r => ∀ b, r = .ok b → b.1 ≤ b.2 ∧ b.2 ≤ len)
      (sliceBounds (S := S) args len).run) ∧
    (∀ (entries : List (Value × Value))
      (body body' : Nat → Value × Value → String → Rendering S (String × Flow)),
      (∀ k (hk : k < entries.length) out,
        body k (entries.get ⟨k, hk⟩) out = body' k (entries.get ⟨k, hk⟩) out) →
      ∀ out, iterate body 0 out entries = iterate body' 0 out entries) ∧
    (∀ (call : Caller S) (alarm : Alarm S) (w w' : World S) (outer : ObjectId) (x : Float),
      (Program.read (.number (((w.heap.fields outer).get? "depth").getD .undefined)) :
        Program S Float).run call w = some (x, w') →
      (Decimal.toIndex x + 1 < 2 ^ 64 ∧ (loopDepth (some (.object outer))).run.run call w =
        some (.ok (Decimal.toIndex x + 1), w')) ∨
      (Decimal.toIndex x + 1 = 2 ^ 64 ∧ (loopDepth (some (.object outer))).run.run call w = none ∧
        (loopDepth (some (.object outer))).run.overflows call alarm w = true)) := by
  refine ⟨fun hin v => ?_, fun s args => ?_, fun l args => ?_, ends_sliceBounds, ?_,
    fun _ alarm _ _ outer _ h => run_loopDepth_object outer alarm h⟩
  · exact ends_switchStart (hereditary_fitting.of_ofNode h _ hin) nofun
  · simp [textMethod, sliceBounds, slice_eq_extract]
  · simp [listMethod, sliceBounds, slice_eq_extract]
  · intro entries body body' hbody out
    exact iterate_congr (fun k hk out => by rw [Nat.zero_add]; exact hbody k hk out) out

namespace Deck

def source : String :=
  "@switch(pic)@case(pic)x@default y@endswitch"

def routine : Routine :=
  ⟨[.switch (.name "pic") [(some (.name "pic"), 0), (none, 1)] [.text "x", .text " y"]]⟩

lemma compile_source : Routine.compile source = .ok routine := by
  have hparse : Node.parse source = .root [.directive "switch" (some "pic")
      [.directive "case" (some "pic") [], .text "x", .directive "default" none [], .text " y"]] :=
    Node.parse_printed (by decide +kernel) (by decide +kernel)
  rw [Routine.compile, hparse]
  simp [Routine.ofNode, Node.children, extends?, nodes, node,
    condition?, homeOf?, argument_pic, switchBody, bind,
    Except.bind]
  rfl

/-- The switch of the cards starts in its body, and a loop with two entries at none but these. -/
theorem positions_in_range_deck :
    Routine.compile source = .ok routine ∧
      Render.Ends (fun start => ∀ k ∈ start, k ≤ 2)
        (switchStart (View.hostOf (C := .bare) (.live ⟨0⟩ .empty))
          { data := ⟨0⟩, globals := .empty } (.text "ace")
          [(some (.name "pic"), 0), (none, 1)] none) ∧
      iterate (S := Client.bare.signature)
          (fun k _ out => pure (out, if k < 2 then .onward else .leave)) 0 ""
          [(.null, .null), (.null, .null)] =
        iterate (fun _ _ out => pure (out, .onward)) 0 "" [(.null, .null), (.null, .null)] := by
  have hranges := Routine.positions_in_range compile_source
    (View.hostOf (C := .bare) (.live ⟨0⟩ .empty)) { data := ⟨0⟩, globals := .empty }
  refine ⟨compile_source, hranges.1 (.here mem_cons_self) _, ?_⟩
  exact hranges.2.2.2.2.1 _ _ _ (fun k hk out => by rw [if_pos (show k < 2 from hk)]) ""

end Deck

namespace Spiral

/-- A loop inside one that says it is as deep as can be. -/
def routine : Routine :=
  ⟨[.foreach (.list [.object [("depth", .number 1e300)]]) none "loop"
    [.foreach (.list [.null]) none "x" [.echo (.member (.name "loop") "depth")]]]⟩

def world : World Client.bare.signature where
  heap := { objects := #[.empty] }
  state := { client := () }

/-- The spiral stops where its inner loop would have a depth. -/
theorem greatest_depth_overflows :
    (∀ bound, (View.semantics .bare).caller bound (.render routine
      { data := ⟨0⟩, globals := .empty } (.live ⟨0⟩ .empty)) world = none) ∧
    (View.semantics .bare).alarm 1 (.render routine { data := ⟨0⟩, globals := .empty }
      (.live ⟨0⟩ .empty)) world = true := by
  refine ⟨fun bound => ?_, by decide +kernel⟩
  exact (View.semantics .bare).sound_alarm 1 (by decide +kernel) bound

end Spiral

end LiveMarkup
