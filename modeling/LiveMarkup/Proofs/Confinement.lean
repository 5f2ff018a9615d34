import LiveMarkup.Proofs.Compiling
import LiveMarkup.Proofs.Machine
import LiveMarkup.Proofs.Printing
import LiveMarkup.Routine.Render

/-!
# Breaks stay where they belong

A break leaves the nearest loop or switch of its own body. Bodies that are rendered apart from the
template around them (slots, sections, pushes, the bodies of components named by an expression) are
no part of the loops around them, so a break in one of them has nothing to leave unless the body
itself holds the loop. The compiler turns such breaks away; hence no body of a compiled template
ever ends by a break, and nothing behind an instruction is ever skipped over.

`Tame` says which breaks can get out of compiled instructions, and `onward_run` says that
instructions which let no break out end as they should.
-/

namespace LiveMarkup

open Compile Instruction

/-! ## Breaks that get out -/

mutual

/-- Whether a break can get out of an instruction: loops and switches keep theirs. -/
def Instruction.escapes : Instruction → Bool
  | .leave => true
  | .choose branches otherwise => branchesEscape branches || bodyEscapes otherwise
  | _ => false

def bodyEscapes : List Instruction → Bool
  | [] => false
  | i :: rest => i.escapes || bodyEscapes rest

def branchesEscape : List (Condition × List Instruction) → Bool
  | [] => false
  | (_, body) :: rest => bodyEscapes body || branchesEscape rest

end

mutual

/-- The bodies inside an instruction that are rendered apart from what is around them. -/
def Instruction.detached : Instruction → List (List Instruction)
  | .choose branches otherwise => branchesDetached branches ++ bodyDetached otherwise
  | .switch _ _ body => bodyDetached body
  | .foreach _ _ _ body => bodyDetached body
  | .push _ body => body :: bodyDetached body
  | .component _ _ slots => namedDetached slots
  | .namedComponent _ _ (some body) => body :: bodyDetached body
  | .extendLayout _ sections => namedDetached sections
  | _ => []

def bodyDetached : List Instruction → List (List Instruction)
  | [] => []
  | i :: rest => i.detached ++ bodyDetached rest

def branchesDetached : List (Condition × List Instruction) → List (List Instruction)
  | [] => []
  | (_, body) :: rest => bodyDetached body ++ branchesDetached rest

def namedDetached : List (String × List Instruction) → List (List Instruction)
  | [] => []
  | (_, body) :: rest => body :: bodyDetached body ++ namedDetached rest

end

/-- All bodies of a routine: its own and those that are rendered apart from it. -/
def Routine.bodies (r : Routine) : List (List Instruction) :=
  r.body :: bodyDetached r.body

@[simp]
lemma bodyEscapes_append (is js : List Instruction) :
    bodyEscapes (is ++ js) = (bodyEscapes is || bodyEscapes js) := by
  induction is with
  | nil => rfl
  | cons i is ih => simp [bodyEscapes, ih, Bool.or_assoc]

@[simp]
lemma bodyDetached_append (is js : List Instruction) :
    bodyDetached (is ++ js) = bodyDetached is ++ bodyDetached js := by
  induction is with
  | nil => rfl
  | cons i is ih => simp [bodyDetached, ih]

/-! ## What the compiler lets through -/

namespace Compile

def Closed (bodies : List (List Instruction)) : Prop :=
  ∀ body ∈ bodies, bodyEscapes body = false

@[simp]
lemma closed_nil : Closed [] := by
  simp [Closed]

@[simp]
lemma closed_cons : Closed (body :: bodies) ↔ bodyEscapes body = false ∧ Closed bodies := by
  simp [Closed]

@[simp]
lemma closed_append : Closed (bodies ++ more) ↔ Closed bodies ∧ Closed more := by
  simp [Closed, or_imp, forall_and]

/-- Breaks get out only where there is something to leave, and never out of a detached body. -/
structure Tame (breakable : Bool) (is : List Instruction) : Prop where
  escapes : breakable = false → bodyEscapes is = false
  detached : Closed (bodyDetached is)

lemma Tame.append (hi : Tame b is) (hj : Tame b js) : Tame b (is ++ js) where
  escapes hb := by simp [hi.escapes hb, hj.escapes hb]
  detached := by simp [hi.detached, hj.detached]

lemma Tame.of_instruction (he : i.escapes = false) (hd : Closed i.detached) : Tame b [i] where
  escapes _ := by simp [bodyEscapes, he]
  detached := by simpa [bodyDetached] using hd

lemma tame_of_isFlat (h : i.isFlat = true) : Tame b [i] := by
  have hescapes : i.escapes = false := by
    cases i <;> simp_all [isFlat, escapes]
  have hdetached : i.detached = [] := by
    cases i <;> simp_all [isFlat, detached]
  exact .of_instruction hescapes (hdetached ▸ closed_nil)

lemma escapes_branches (h : ∀ e ∈ bs, bodyEscapes e.2 = false) : branchesEscape bs = false := by
  induction bs with
  | nil => rfl
  | cons b bs ih =>
    obtain ⟨hb, hbs⟩ := List.forall_mem_cons.mp h
    rw [branchesEscape, hb, ih hbs, Bool.or_self]

lemma closed_branches (h : ∀ e ∈ bs, Tame b e.2) : Closed (branchesDetached bs) := by
  induction bs with
  | nil => exact closed_nil
  | cons c bs ih =>
    obtain ⟨hc, hbs⟩ := List.forall_mem_cons.mp h
    exact closed_append.mpr ⟨hc.detached, ih hbs⟩

lemma closed_named (h : ∀ e ∈ bs, Tame false e.2) :
    Closed (namedDetached bs) := by
  induction bs with
  | nil => exact closed_nil
  | cons c bs ih =>
    obtain ⟨hc, hbs⟩ := List.forall_mem_cons.mp h
    exact closed_cons.mpr ⟨hc.escapes rfl, closed_append.mpr ⟨hc.detached, ih hbs⟩⟩

lemma hereditary_tame : Hereditary Tame where
  nil := ⟨fun _ => rfl, closed_nil⟩
  append := .append
  flat := tame_of_isFlat
  inject _ _ := .of_instruction rfl closed_nil
  leave := ⟨nofun, closed_nil⟩
  choose hbranches hbody := by
    refine ⟨fun hb => ?_, ?_⟩
    · have hescapes := escapes_branches fun e he => (hbranches e he).escapes hb
      simp [bodyEscapes, escapes, hescapes, hbody.escapes hb]
    · simpa [bodyDetached, detached] using ⟨closed_branches hbranches, hbody.detached⟩
  switch _ hbody := .of_instruction rfl hbody.detached
  foreach hbody := .of_instruction rfl hbody.detached
  -- a body of its own is compiled with nothing to leave, so no break gets out of it
  push hbody := .of_instruction rfl (closed_cons.mpr ⟨hbody.escapes rfl, hbody.detached⟩)
  component hslots := .of_instruction rfl (closed_named hslots)
  namedComponent {_ _ _ body} hbody := by
    cases body with
    | none => exact .of_instruction rfl closed_nil
    | some is =>
      have his := hbody is rfl
      exact .of_instruction rfl (closed_cons.mpr ⟨his.escapes rfl, his.detached⟩)
  extendLayout hsections := .of_instruction rfl (closed_named hsections)

end Compile

lemma Routine.closed_bodies (h : Routine.ofNode root = .ok r) : Closed r.bodies := by
  have htame := hereditary_tame.of_ofNode h
  exact closed_cons.mpr ⟨htame.escapes rfl, htame.detached⟩

/-! ## How bodies end -/

namespace Program

variable {S : Signature}

/-- However the operations are answered, the result is one of these. -/
def Ends (P : α → Prop) : Program S α → Prop
  | .done a => P a
  | .step _ next => ∀ r, (next r).Ends P

variable {p : Program S α}

lemma ends_bind {Q : β → Prop} (hp : p.Ends P) (hf : ∀ a, P a → (f a).Ends Q) :
    (p >>= f).Ends Q := by
  induction p with
  | done a => exact hf a hp
  | step op next ih => exact fun r => ih r (hp r)

lemma ends_of_forall (h : ∀ a, P a) (p : Program S α) : p.Ends P := by
  induction p with
  | done a => exact h a
  | step op next ih => exact ih

lemma of_ends_run (hp : p.Ends P) {call : Caller S} (h : p.run call w = some (a, w')) : P a := by
  induction p generalizing w with
  | done b =>
    cases h
    exact hp
  | step op next ih =>
    rw [run_step] at h
    obtain ⟨r, -, h⟩ := Option.bind_eq_some_iff.mp h
    exact ih r.1 (hp r.1) h

lemma bind_congr_of_ends (hp : p.Ends P) (h : ∀ a, P a → f a = g a) :
    p >>= f = p >>= g := by
  induction p with
  | done a => exact h a hp
  | step op next ih => exact congrArg (step op) (funext fun r => ih r (hp r))

end Program

namespace Render

variable {S : Signature}

/-- If rendering succeeds, then with one of these results. -/
def Ends (P : α → Prop) (x : Rendering S α) : Prop :=
  Program.Ends (fun r => ∀ a, r = .ok a → P a) x.run

lemma ends_pure {a : α} (h : P a) : Ends P (pure a : Rendering S α) := by
  rintro _ ⟨⟩
  exact h

lemma ends_any (x : Rendering S α) : Ends (fun _ => True) x :=
  Program.ends_of_forall (fun _ _ _ => trivial) x.run

lemma ends_bind {Q : β → Prop} (hx : Ends P x) (hf : ∀ a, P a → Ends Q (f a)) :
    Ends Q (x >>= f) := by
  refine Program.ends_bind hx fun r hr => ?_
  cases r with
  | error e => exact fun a ha => nomatch ha
  | ok a => exact hf a (hr a rfl)

lemma bind_congr_of_ends (hx : Ends P x) (h : ∀ a, P a → f a = g a) : x >>= f = x >>= g := by
  refine Program.bind_congr_of_ends hx fun r hr => ?_
  cases r with
  | error e => rfl
  | ok a => exact h a (hr a rfl)

def Onward (r : String × Flow) : Prop :=
  r.2 = .onward

def injected (host : Host S H) (service : String) : Rendering S Value := do
  match ← lift (host.service service) with
  | some v => return v
  | none =>
    lift (Program.report .serviceMissing)
    return .undefined

lemma run_cons (hi : ∀ binder service, i ≠ .inject binder service) (scope : Scope) (out : String)
    (rest : List Instruction) :
    run host scope 0 out (i :: rest) = step host scope out i >>= fun r =>
      match r.2 with
      | .leave => pure (r.1, .leave)
      | .onward => run host scope 0 r.1 rest := by
  cases i with
  | inject binder service => exact absurd rfl (hi binder service)
  | _ => rfl

lemma run_inject (binder service : String) (scope : Scope) (out : String)
    (rest : List Instruction) :
    run host scope 0 out (.inject binder service :: rest) = injected host service >>= fun v =>
      run host (scope.withLocals (.ofList [(binder, v)])) 0 out rest := by
  unfold injected
  rw [run, bind_assoc]
  refine bind_congr fun v => ?_
  cases v <;> rfl

mutual

lemma onward_run (scope : Scope) (start : Nat) (out : String) {is : List Instruction}
    (h : bodyEscapes is = false) : Ends Onward (run host scope start out is) := by
  cases is with
  | nil => exact ends_pure rfl
  | cons i rest =>
    rw [bodyEscapes, Bool.or_eq_false_iff] at h
    cases start with
    | succ n => exact onward_run scope n out h.2
    | zero =>
      -- an injection changes the scope of what follows and can itself not break
      by_cases hi : ∃ binder service, i = .inject binder service
      · obtain ⟨binder, service, rfl⟩ := hi
        rw [run_inject]
        exact ends_bind (ends_any _) fun v _ => onward_run _ 0 out h.2
      · rw [run_cons fun binder service heq => hi ⟨binder, service, heq⟩]
        refine ends_bind (onward_step scope out h.1) fun r hr => ?_
        rw [hr]
        exact onward_run scope 0 r.1 h.2

lemma onward_step (scope : Scope) (out : String) {i : Instruction} (h : i.escapes = false) :
    Ends Onward (step host scope out i) := by
  cases i with
  | leave => cases h
  | choose branches otherwise =>
    rw [escapes, Bool.or_eq_false_iff] at h
    refine ends_bind (onward_choose scope out h.1) fun r hr => ?_
    cases r with
    | none => exact onward_run scope 0 out h.2
    | some r => exact ends_pure (hr r rfl)
  | switch subject labels body =>
    refine ends_bind (ends_any _) fun v _ => ends_bind (ends_any _) fun start _ => ?_
    cases start with
    | none => exact ends_pure rfl
    | some start => exact ends_bind (ends_any _) fun r _ => ends_pure rfl
  | foreach source key item body =>
    refine ends_bind (ends_any _) fun v _ => ends_bind (ends_any _) fun entries _ => ?_
    exact ends_bind (ends_any _) fun depth _ => ends_bind (ends_any _) fun out _ => ends_pure rfl
  | push stack body =>
    exact ends_bind (ends_any _) fun r _ => ends_bind (ends_any _) fun _ _ => ends_pure rfl
  | _ => exact ends_bind (ends_any _) fun s _ => ends_pure rfl

lemma onward_choose (scope : Scope) (out : String) (h : branchesEscape branches = false) :
    Ends (fun r => ∀ s ∈ r, Onward s) (choose host scope out branches) := by
  cases branches with
  | nil => exact ends_pure nofun
  | cons branch rest =>
    obtain ⟨condition, body⟩ := branch
    rw [branchesEscape, Bool.or_eq_false_iff] at h
    refine ends_bind (ends_any _) fun b _ => ?_
    split
    · refine ends_bind (onward_run scope 0 out h.1) fun r hr => ends_pure ?_
      rintro _ ⟨⟩
      exact hr
    · exact onward_choose scope out h.2

end

lemma run_cons_of_closed (hi : ∀ binder service, i ≠ .inject binder service)
    (h : i.escapes = false) (scope : Scope) (out : String) (rest : List Instruction) :
    run host scope 0 out (i :: rest) = step host scope out i >>= fun r =>
      run host scope 0 r.1 rest := by
  rw [run_cons hi]
  refine bind_congr_of_ends (onward_step scope out h) fun r hr => ?_
  rw [hr]

end Render

/-! ## Compiled templates -/

/-- Every body of a compiled template, its own as well as those that are rendered apart from it,
goes on to its end wherever it is started; and after each of its instructions, whatever breaks there
are inside, comes the next one. -/
theorem Routine.breaks_stay_confined {root : Node} {r : Routine} (h : Routine.ofNode root = .ok r)
    {body : List Instruction} (hbody : body ∈ r.bodies) {S : Signature} {H : Type}
    (host : Host S H) (scope : Scope) (out : String) :
    (∀ (start : Nat) (call : Caller S) (w w' : World S) (shown : String) (flow : Flow),
      (Render.run host scope start out body).run.run call w = some (.ok (shown, flow), w') →
        flow = .onward) ∧
    ∀ before i after, body = before ++ i :: after → (∀ binder service, i ≠ .inject binder service) →
      Render.run host scope 0 out (i :: after) = (do
        let (shown, _) ← Render.step host scope out i
        Render.run host scope 0 shown after) := by
  have hclosed := Routine.closed_bodies h body hbody
  refine ⟨fun start call w w' shown flow hrun => ?_, fun before i after hsplit hi => ?_⟩
  · exact Program.of_ends_run (Render.onward_run scope start out hclosed) hrun _ rfl
  · rw [hsplit, bodyEscapes_append, bodyEscapes, Bool.or_eq_false_iff, Bool.or_eq_false_iff]
      at hclosed
    exact Render.run_cons_of_closed hi hclosed.2.1 scope out after

/-! ### A gallery

One name serves for all the expressions, so that compiling is a matter of unfolding the compiler. -/

namespace Compile

lemma parse_pic : Expr.parse "pic" = .ok (.name "pic") := by
  have hprintable : (Expr.name "pic").Printable := ⟨by decide, by decide⟩
  have htokens := Expr.tokenize_print hprintable
  have hderives := (Expr.derives_tokens hprintable).loosest
  exact (Expr.parse_eq_ok_iff htokens).mpr (ExprParser.reads_all_iff.mpr hderives)

lemma expression_pic (context : String) : expression context "pic" = .ok (.name "pic") := by
  rw [expression, parse_pic]

lemma argument_pic (directive : String) : argument directive (some "pic") = .ok (.name "pic") := by
  have hblank : isBlank "pic" = false := by decide +kernel
  simp [argument, hblank, expression_pic]

lemma arguments_pic (directive : String) : arguments directive (some "pic") = .ok ("pic", []) := by
  have hsplit : Arguments.split "pic" = ["pic"] := by decide +kernel
  simp [arguments, hsplit, pure, Except.pure]

lemma loop_pic : loop (some "pic as it") = .ok (.name "pic", ⟨"pic", none, "it"⟩) := by
  have hblank : isBlank "pic as it" = false := by decide +kernel
  have hclause : Clause.loop? "pic as it" = some ⟨"pic", none, "it"⟩ := by decide +kernel
  simp [loop, hblank, hclause, expression_pic, bind, Except.bind, pure, Except.pure]

end Compile

/-- A gallery whose pictures are cut short in every way there is: a loop that is left from inside a
branch, a slot and a push with loops of their own, a switch with a break, a named component. -/
def gallery : Node :=
  .root
    [.directive "foreach" (some "pic as it")
      [.directive "if" (some "pic")
        [.directive "switch" (some "pic")
          [.directive "case" (some "pic") [], .text "small", .directive "break" none [],
            .directive "default" none [], .text "large"],
          .directive "else" none [], .directive "break" none []],
        .component "x-frame" "" [.directive "foreach" (some "pic as it")
          [.echo "pic", .directive "break" none []]],
        .directive "push" (some "pic") [.directive "foreach" (some "pic as it")
          [.directive "unless" (some "pic") [.directive "break" none []], .echo "pic"]],
        .directive "component" (some "pic") [.text "plain"]],
      .text "end"]

lemma gallery_compiles : ∃ r, Routine.ofNode gallery = .ok r ∧ r.bodies.length = 4 := by
  have hattrs : attributes "x-frame" (TagText.attributes "") = .ok [] := rfl
  have hdata : optional "@component" none = .ok none := rfl
  simp [Routine.ofNode, gallery, Node.children, extends?, nodes, Compile.node,
    condition?, homeOf?, branchBodies, switchBody,
    slotBodies, expression_pic, argument_pic, arguments_pic,
    loop_pic, hattrs, hdata, bind, Except.bind, pure, Except.pure, Routine.bodies,
    bodyDetached, detached, namedDetached, branchesDetached,
    BranchParts.finish, SlotParts.finish]

theorem Routine.breaks_stay_confined_gallery :
    ∃ r, Routine.ofNode gallery = .ok r ∧ r.bodies.length = 4 ∧
      ∀ body ∈ r.bodies, ∀ (S : Signature) (H : Type) (host : Host S H) (scope : Scope)
        (call : Caller S) (w w' : World S) (shown : String) (flow : Flow),
          (Render.run host scope 0 "" body).run.run call w = some (.ok (shown, flow), w') →
            flow = .onward := by
  obtain ⟨r, hr, hcount⟩ := gallery_compiles
  refine ⟨r, hr, hcount, fun body hbody S H host scope => ?_⟩
  exact (Routine.breaks_stay_confined hr hbody host scope "").1 0

end LiveMarkup
