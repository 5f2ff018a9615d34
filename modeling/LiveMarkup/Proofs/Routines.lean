import LiveMarkup.Proofs.Expressions

/-!
# Routines render alike

The interpreter of routines over expressions: every instruction, in scopes and for hosts that are
alike, renders the same text, or fails the same way. The one thing that rendering looks at without
depending on it is the depth of the loop around a loop; as long as no template gives the name `loop`
to something else, that is a record which this very rendering has made.
-/

namespace LiveMarkup

open List Instruction Table

variable {L : Likeness S}

/-! ## Templates that leave `loop` alone -/

mutual

/-- Whether an instruction, or one inside it, gives the name `loop` to something of its own. -/
def Instruction.bindsLoop : Instruction → Bool
  | .choose branches otherwise => branchesBindLoop branches || bodyBindsLoop otherwise
  | .switch _ _ body => bodyBindsLoop body
  | .foreach _ key item body => key == some "loop" || item == "loop" || bodyBindsLoop body
  | .push _ body => bodyBindsLoop body
  | .inject binder _ => binder == "loop"
  | .component _ _ slots => namedBindLoop slots
  | .namedComponent _ _ (some body) => bodyBindsLoop body
  | .extendLayout _ sections => namedBindLoop sections
  | _ => false

def bodyBindsLoop : List Instruction → Bool
  | [] => false
  | i :: rest => i.bindsLoop || bodyBindsLoop rest

def branchesBindLoop : List (Condition × List Instruction) → Bool
  | [] => false
  | (_, body) :: rest => bodyBindsLoop body || branchesBindLoop rest

def namedBindLoop : List (String × List Instruction) → Bool
  | [] => false
  | (_, body) :: rest => bodyBindsLoop body || namedBindLoop rest

end

/-- No instruction of a routine gives the name `loop` to something of its own. -/
def Routine.LoopFree (r : Routine) : Prop :=
  bodyBindsLoop r.body = false

/-! ## Scopes -/

/-- Scopes that differ in names at most. What `loop` stands for was made by the run itself. -/
structure Scope.Alike (L : Likeness S) (s s' : Scope) : Prop where
  data : L.rel (.object s.data) (.object s'.data)
  globals : s.globals.Rel L.value s'.globals
  locals : Forall₂ (Table.Rel L.value) s.locals s'.locals
  loop : ∀ o, s.local? "loop" = some (.object o) → .object o ∈ L.own

namespace Scope.Alike

lemma local? (h : Scope.Alike L s s') (name : String) :
    Option.Rel L.value (s.local? name) (s'.local? name) := by
  have hlocals := h.locals
  rw [Scope.local?, Scope.local?]
  generalize s.locals = ls, s'.locals = ls' at hlocals
  induction hlocals with
  | nil => exact .none
  | cons ht _ ih =>
    have hg := ht.get? name
    rw [findSome?_cons, findSome?_cons]
    revert hg
    generalize get? _ name = x, get? _ name = x'
    rintro (hv | _)
    · exact .some hv
    · exact ih

lemma alike_lookup (h : Scope.Alike L s s') (name : String) :
    L.Alike (Option.Rel L.value) (s.lookup name) (s'.lookup name) := by
  have hl := h.local? name
  rw [Scope.lookup, Scope.lookup]
  generalize s.local? name = x, s'.local? name = x' at hl
  cases hl with
  | some hv => exact L.pure (.some hv)
  | none =>
    refine L.bind (L.read (.property h.data name)) ?_
    intro v v' hv
    cases hv with
    | some hv => exact L.pure (.some hv)
    | none => exact L.pure (h.globals.get? name)

lemma withLocals (h : Scope.Alike L s s') {vars vars' : Table Value}
    (hvars : vars.Rel L.value vars')
    (hloop : ∀ o, vars.get? "loop" = some (.object o) → .object o ∈ L.own) :
    Scope.Alike L (s.withLocals vars) (s'.withLocals vars') where
  data := h.data
  globals := h.globals
  locals := .cons hvars h.locals
  loop := by
    intro o ho
    rw [Scope.local?, Scope.withLocals, findSome?_cons] at ho
    split at ho
    · rename_i hv
      rw [ho] at hv
      exact hloop o hv
    · exact h.loop o ho

end Scope.Alike

/-! ## Hosts -/

/-- What a section comes to: its text, or the failure that is raised for it. -/
def Rendered.outcome : Rendered → Except RenderError String
  | .markup html => .ok html
  | .diagnostic d => .error (.fragment d.message)

/-- Hosts that do the same, where `F` says which fragments are the same. -/
structure Host.Alike (L : Likeness S) (F : Fragment H → Fragment H → Prop) (host host' : Host S H) :
    Prop where
  body : ∀ {scope scope'}, Scope.Alike L scope scope' → ∀ {code}, L.Free (bodyBindsLoop code) →
    F (.body code scope host.self) (.body code scope' host'.self)
  component : ∀ name {attrs attrs' slots slots'}, attrs.Rel L.value attrs' → slots.Rel F slots' →
    L.Alike (fun r r' => r.html = r'.html) (host.component name attrs slots)
      (host'.component name attrs' slots')
  layout : ∀ name {sections sections'}, sections.Rel F sections' →
    L.Alike (fun r r' => r.html = r'.html) (host.layout name sections) (host'.layout name sections')
  includeView : ∀ name {v v'}, Option.Rel L.value v v' →
    L.Alike (fun r r' => r.html = r'.html) (host.includeView name v) (host'.includeView name v')
  sectionOf : ∀ name, Option.Rel F (host.sectionOf name) (host'.sectionOf name)
  fragment : ∀ {f f'}, F f f' →
    L.Alike (fun r r' => L.Outcome RenderError.kind Eq r.outcome r'.outcome) (host.fragment f)
      (host'.fragment f')
  push : ∀ stack content,
    L.Alike (fun _ _ => True) (host.push stack content) (host'.push stack content)
  stack : ∀ name, L.Alike Eq (host.stack name) (host'.stack name)
  service : ∀ name, L.Alike (Option.Rel L.value) (host.service name) (host'.service name)
  apply : ∀ {f f' args args'}, L.rel (.function f) (.function f') →
    Forall₂ L.value args args' → L.Applies (host.apply f args) (host'.apply f' args')
  invoke : ∀ {i i' args args'}, L.rel (.host i) (.host i') → ∀ name,
    Forall₂ L.value args args' →
    L.Applies (host.invoke i name args) (host'.invoke i' name args')

namespace Render

open Likeness

variable {host : Host S H}

lemma alike_ofEval (hx : L.Evals R x x') : L.Renders R (ofEval x) (ofEval x') := by
  refine L.bind hx ?_
  intro r r' hr
  cases hr with
  | ok h => exact L.pure (.ok h)
  | error hkind h => exact L.pure (.error hkind fun hs => congrArg _ (h hs))

lemma alike_display (hv : L.value v v') : L.Renders Eq (display v) (display v') :=
  .lift (L.read (.display hv))

lemma isUnresolvable_eq (e : EvalError) :
    isUnresolvable e = (e.kind == "Eval.Reference" || e.kind == "Value.NullAccess") := by
  cases e with
  | reference n => rfl
  | type message => rfl
  | value e => cases e <;> rfl

/-! ## Loops -/

def EntriesRel (L : Likeness S) : List (Value × Value) → List (Value × Value) → Prop :=
  Forall₂ fun e e' => L.value e.1 e'.1 ∧ L.value e.2 e'.2

lemma mapIdx_rel {g : α → Value} {g' : α' → Value} (h : Forall₂ R l l')
    (hg : ∀ a a', R a a' → L.value (g a) (g' a')) :
    EntriesRel L (l.mapIdx fun i a => (.ofNat i, g a)) (l'.mapIdx fun i a => (.ofNat i, g' a)) := by
  refine forall₂_of_length_eq_of_get (by simp [h.length_eq]) ?_
  intro i hi hi'
  simp only [get_eq_getElem, getElem_mapIdx]
  exact ⟨.number _, hg _ _ (h.get _ _)⟩

lemma alike_loopEntries (source : Expr) (hv : L.value v v') :
    L.Renders (EntriesRel L) (loopEntries source v) (loopEntries source v') := by
  unfold loopEntries
  rw [hv.isTruthy]
  split
  · exact .pure .nil
  · cases hv with
    | list hl =>
      refine (AlikeExcept.lift (L.read (.items hl))).bind fun items items' hitems => ?_
      exact .pure (mapIdx_rel hitems fun _ _ h => h)
    | text s =>
      refine .pure (mapIdx_rel (R := Eq) (forall₂_same.mpr fun _ _ => rfl) ?_)
      rintro c _ rfl
      exact .text _
    | object ho =>
      refine (AlikeExcept.lift (L.read (.entries ho))).bind fun entries entries' he => ?_
      refine .pure (rel_map ?_ he)
      rintro ⟨k, v⟩ ⟨k', v'⟩ ⟨rfl, hv⟩
      exact ⟨.text k, hv⟩
    | _ => exact .throw _

lemma loopRecord_rel (index count depth : Nat) (h : Option.Rel L.value parent parent') :
    (loopRecord index count depth parent).Rel L.value (loopRecord index count depth parent') := by
  refine .ofList (rel_append ?_ ?_)
  · exact .cons ⟨rfl, .number _⟩ <| .cons ⟨rfl, .number _⟩ <| .cons ⟨rfl, .number _⟩ <|
      .cons ⟨rfl, .number _⟩ <| .cons ⟨rfl, .bool _⟩ <| .cons ⟨rfl, .bool _⟩ <|
      .cons ⟨rfl, .bool _⟩ <| .cons ⟨rfl, .bool _⟩ <| .cons ⟨rfl, .number _⟩ .nil
  · cases h with
    | some hv => exact .cons ⟨rfl, hv⟩ .nil
    | none => exact .nil

lemma alike_loopDepth (h : Option.Rel L.value parent parent')
    (hown : ∀ o, parent = some (.object o) → .object o ∈ L.own) :
    L.Renders Eq (loopDepth parent) (loopDepth parent') := by
  cases h with
  | none => exact .pure rfl
  | some hv =>
    cases hv with
    | object ho =>
      refine (AlikeExcept.lift (L.peek ho (hown _ rfl) "depth")).bind fun d d' hd => ?_
      have hnumber : L.Renders Eq
          (lift (Program.read (.number (d.getD .undefined))) : Rendering S Float)
          (lift (Program.read (.number (d'.getD .undefined)))) :=
        .lift (L.read (.number (optionRel_getD hd .undefined)))
      exact hnumber.bindEq fun x => .lift (L.read (.countAfter _))
    | _ => exact .pure rfl

lemma loopVariables_rel (hr : L.rel (.object record) (.object record')) (key : Option String)
    (item : String) {e e' : Value × Value} (he : L.value e.1 e'.1 ∧ L.value e.2 e'.2) :
    (loopVariables record key item e).Rel L.value (loopVariables record' key item e') := by
  refine .ofList (rel_append (.cons ⟨rfl, .object hr⟩ ?_) (.cons ⟨rfl, he.2⟩ .nil))
  cases key with
  | none => exact .nil
  | some k => exact .cons ⟨rfl, he.1⟩ .nil

lemma get?_loopVariables {item : String} (hkey : key ≠ some "loop") (hitem : item ≠ "loop")
    (record : ObjectId) (e : Value × Value) :
    (loopVariables record key item e).get? "loop" = some (.object record) := by
  have hrecord : (empty.insert "loop" (Value.object record)).get? "loop" =
      some (.object record) := by
    rw [get?_insert, if_pos rfl]
  rw [loopVariables, ofList, insertAll, foldl_append]
  simp only [foldl_cons, foldl_nil, get?_insert, if_neg (Ne.symm hitem)]
  cases key with
  | none => exact hrecord
  | some k =>
    have hk : "loop" ≠ k := fun h => hkey (h ▸ rfl)
    simp only [Option.map_some, Option.toList_some, foldl_append, foldl_cons,
      foldl_nil, get?_insert, if_neg hk, reduceIte]

lemma get?_ofList_single (name : String) (v : Value) (key : String) :
    (ofList [(name, v)]).get? key = if key = name then some v else none := by
  rw [ofList, insertAll, foldl_cons, foldl_nil, get?_insert]
  rfl

lemma alike_iterate {entries entries' : List (Value × Value)} (he : EntriesRel L entries entries')
    (hbody : ∀ i e e' out, L.value e.1 e'.1 ∧ L.value e.2 e'.2 → L.Renders Eq (body i e out) (body'
      i e' out)) (index : Nat) (out : String) :
    L.Renders Eq (iterate body index out entries) (iterate body' index out entries') := by
  induction he generalizing index out with
  | nil => exact .pure rfl
  | cons hentry _ ih =>
    refine (hbody index _ _ out hentry).bind ?_
    rintro ⟨out, flow⟩ _ rfl
    cases flow with
    | leave => exact .pure rfl
    | onward => exact ih (index + 1) out

/-! ## Instructions -/

lemma alike_jsonText (hv : L.value v v') : L.Renders Eq (jsonText v) (jsonText v') := by
  have hjson : L.Renders Eq (lift (Program.read (.json v))) (lift (Program.read (.json v'))) :=
    .lift (L.read (.json hv))
  cases hv with
  | undefined | function => exact .pure rfl
  | _ =>
    refine hjson.bindEq fun r => ?_
    cases r with
    | ok j => exact .pure rfl
    | error e => exact .throw _

lemma alike_html {p p' : Program S Rendered} (hp : L.Alike (fun r r' => r.html = r'.html) p p') :
    L.Renders Eq (lift p >>= fun r => Pure.pure r.html) (lift p' >>= fun r => Pure.pure r.html) :=
  (AlikeExcept.lift hp).bind fun _ _ h => .pure h

section

variable (hh : host.Alike L F host') (hs : Scope.Alike L scope scope')
include hh hs

lemma alike_environment :
    (environment host scope).Alike L (environment host' scope') :=
  ⟨hs.alike_lookup, hh.apply, hh.invoke⟩

lemma alike_value (e : Expr) :
    L.Renders L.value (value host scope e) (value host' scope' e) :=
  alike_ofEval (e.alike_eval (alike_environment hh hs))

lemma alike_value? (e : Option Expr) :
    L.Renders (Option.Rel L.value) (value? host scope e) (value? host' scope' e) := by
  cases e with
  | none => exact .pure .none
  | some e => exact (alike_value hh hs e).bind fun v v' hv => .pure (.some hv)

lemma alike_resolve (e : Expr) :
    L.Renders (Option.Rel L.value) (resolve host scope e) (resolve host' scope' e) := by
  refine L.bind (e.alike_eval (alike_environment hh hs)) ?_
  intro r r' hr
  cases hr with
  | ok hv => exact L.pure (.ok (.some hv))
  | error hkind h =>
    dsimp only
    rw [isUnresolvable_eq, isUnresolvable_eq, hkind]
    refine L.pure ?_
    split
    · exact .ok .none
    · exact .error hkind fun hs => congrArg _ (h hs)

lemma alike_holds (c : Condition) : L.Renders Eq (holds host scope c) (holds host' scope' c) := by
  cases c with
  | truthy e => exact (alike_value hh hs e).bind fun v v' hv => .pure hv.isTruthy
  | falsy e => exact (alike_value hh hs e).bind fun v v' hv => .pure (by rw [hv.isTruthy])
  | isset e =>
    refine (alike_resolve hh hs e).bind fun v v' hv => .pure ?_
    cases hv with
    | some hv => simp [hv.isNullish]
    | none => rfl
  | empty e =>
    refine (alike_resolve hh hs e).bind fun v v' hv => ?_
    cases hv with
    | none => exact .pure rfl
    | some hv =>
      have htruthy := hv.isTruthy
      cases hv with
      | list hl =>
        refine (AlikeExcept.lift (L.read (.length hl))).bindEq fun n => ?_
        exact .pure rfl
      | _ => exact .pure (by rw [htruthy])

lemma alike_switchStart {subject subject' : Value} (hv : L.value subject subject')
    (labels : List (Option Expr × Nat)) (fallback : Option Nat) :
    L.Renders Eq (switchStart host scope subject labels fallback)
      (switchStart host' scope' subject' labels fallback) := by
  induction labels generalizing fallback with
  | nil => exact .pure rfl
  | cons label rest ih =>
    obtain ⟨test, position⟩ := label
    cases test with
    | none => exact ih _
    | some test =>
      refine (alike_value hh hs test).bind fun v v' hvv => ?_
      rw [Value.Rel.strictEq hvv hv]
      split
      · exact .pure rfl
      · exact ih _

lemma alike_attributeValues (attrs : List (String × AttrValue)) :
    L.Renders (Forall₂ (EntryRel L.value)) (attributeValues host scope attrs)
      (attributeValues host' scope' attrs) := by
  induction attrs with
  | nil => exact .pure .nil
  | cons attr rest ih =>
    obtain ⟨name, value⟩ := attr
    cases value with
    | literal s => exact ih.bind fun vs vs' hvs => .pure (.cons ⟨rfl, .text s⟩ hvs)
    | dynamic e =>
      refine (alike_value hh hs e).bind fun v v' hv => ?_
      exact ih.bind fun vs vs' hvs => .pure (.cons ⟨rfl, hv⟩ hvs)

lemma fragments_rel (hfree : L.Free (namedBindLoop bodies)) :
    (fragments host scope bodies).Rel F (fragments host' scope' bodies) := by
  refine .ofList ?_
  induction bodies with
  | nil => exact .nil
  | cons b rest ih =>
    obtain ⟨name, body⟩ := b
    rw [namedBindLoop] at hfree
    exact .cons ⟨rfl, hh.body hs hfree.of_or.1⟩ (ih hfree.of_or.2)

lemma alike_simple {i : Instruction} (hfree : L.Free i.bindsLoop) :
    L.Renders Eq (simple host scope i) (simple host' scope' i) := by
  cases i with
  | text | click | choose | switch | foreach | leave | push | inject => exact .pure rfl
  | echo e => exact (alike_value hh hs e).bind fun v v' hv => alike_display hv
  | json e => exact (alike_value hh hs e).bind fun v v' hv => alike_jsonText hv
  | classes e =>
    refine (alike_value hh hs e).bind fun v v' hv => ?_
    refine (AlikeExcept.lift (L.read (.classNames hv))).bindEq fun classes => ?_
    exact .pure rfl
  | style e =>
    refine (alike_value hh hs e).bind fun v v' hv => ?_
    refine (AlikeExcept.lift (L.read (.styleNames hv))).bindEq fun style => ?_
    exact .pure rfl
  | flag name condition =>
    exact (alike_value hh hs condition).bind fun v v' hv => .pure (by rw [hv.isTruthy])
  | model path e =>
    refine (alike_value hh hs e).bind fun v v' hv => ?_
    dsimp only
    rw [hv.isNullish]
    split
    · exact .pure rfl
    · have hshown : L.Renders Eq (Text.escapeHtml <$> display v : Rendering S String)
          (Text.escapeHtml <$> display v') :=
        (alike_display hv).map fun s s' h => by rw [h]
      refine hshown.bindEq fun s => ?_
      exact .pure rfl
  | yieldSection sectionName fallback =>
    have hf := hh.sectionOf sectionName
    simp only [simple]
    generalize host.sectionOf sectionName = x, host'.sectionOf sectionName = x' at hf
    cases hf with
    | some hf =>
      refine (AlikeExcept.lift (hh.fragment hf)).bind fun r r' h => ?_
      cases r <;> cases r' <;> exact L.pure h
    | none =>
      refine (alike_value? hh hs fallback).bind fun v v' hv => ?_
      cases hv with
      | none => exact .pure rfl
      | some hv =>
        dsimp only
        rw [hv.isNullish]
        split
        · exact .pure rfl
        · exact alike_display hv
  | stack name => exact .lift (hh.stack name)
  | includeView view data =>
    refine (alike_value hh hs view).bind fun v v' hv => ?_
    refine (alike_display hv).bindEq fun name => ?_
    refine (alike_value? hh hs data).bind fun d d' hd => ?_
    exact alike_html (hh.includeView name hd)
  | component name attrs slots =>
    refine (alike_attributeValues hh hs attrs).bind fun vs vs' hvs => ?_
    exact alike_html (hh.component name (.ofList hvs) (fragments_rel hh hs hfree))
  | namedComponent e data body =>
    refine (alike_value hh hs e).bind fun v v' hv => ?_
    refine (alike_display hv).bindEq fun name => ?_
    have hslots : L.Free (namedBindLoop (body.map fun b => ("default", b)).toList) := by
      cases body with
      | none => exact hfree
      | some b =>
        rw [bindsLoop] at hfree
        simpa [namedBindLoop] using hfree
    have hrender {as as' : List (String × Value)} (has : Forall₂ (EntryRel L.value) as as') :=
      alike_html (hh.component name (.ofList has) (fragments_rel hh hs hslots))
    refine (alike_value? hh hs data).bind fun d d' hd => ?_
    cases hd with
    | none => exact hrender .nil
    | some hd =>
      cases hd with
      | object ho =>
        refine (AlikeExcept.lift (L.read (.entries ho))).bind fun as as' has => ?_
        exact hrender has
      | _ => exact hrender .nil
  | extendLayout layout sections =>
    exact alike_html (hh.layout layout (fragments_rel hh hs hfree))

omit hs

mutual

lemma alike_run {scope scope' : Scope} (hs : Scope.Alike L scope scope') (start : Nat)
    (out : String) (hfree : L.Free (bodyBindsLoop code)) :
    L.Renders Eq (run host scope start out code) (run host' scope' start out code) := by
  cases code with
  | nil => exact .pure rfl
  | cons i rest =>
    rw [bodyBindsLoop] at hfree
    replace hfree := hfree.of_or
    cases start with
    | succ n => exact alike_run hs n out hfree.2
    | zero =>
      have hstep : L.Renders Eq (step host scope out i >>= fun r =>
            match r.2 with
            | .leave => Pure.pure (r.1, Flow.leave)
            | .onward => run host scope 0 r.1 rest)
          (step host' scope' out i >>= fun r =>
            match r.2 with
            | .leave => Pure.pure (r.1, Flow.leave)
            | .onward => run host' scope' 0 r.1 rest) := by
        refine (alike_step hs out hfree.1).bind ?_
        rintro ⟨out, flow⟩ _ rfl
        cases flow with
        | leave => exact .pure rfl
        | onward => exact alike_run hs 0 out hfree.2
      cases i with
      | inject binder service =>
        have hrest : ∀ {v v' : Value}, L.value v v' →
            L.Renders Eq (run host (scope.withLocals (.ofList [(binder, v)])) 0 out rest)
              (run host' (scope'.withLocals (.ofList [(binder, v')])) 0 out rest) := by
          intro v v' hv
          have hvars : (ofList [(binder, v)]).Rel L.value (.ofList [(binder, v')]) :=
            .ofList (.cons ⟨rfl, hv⟩ .nil)
          refine alike_run (hs.withLocals hvars ?_) 0 out hfree.2
          intro o ho
          by_cases hbinder : binder = "loop"
          · exact L.own_of_loops (hfree.1 (by simp [bindsLoop, hbinder])) _
          · rw [get?_ofList_single, if_neg (Ne.symm hbinder)] at ho
            cases ho
        refine (AlikeExcept.lift (hh.service service)).bind fun v v' hv => ?_
        cases hv with
        | some hv => exact hrest hv
        | none =>
          refine (AlikeExcept.lift (L.report .serviceMissing)).bind fun _ _ _ => ?_
          exact hrest .undefined
      | _ => exact hstep

lemma alike_step {scope scope' : Scope} (hs : Scope.Alike L scope scope') (out : String)
    (hfree : L.Free i.bindsLoop) :
    L.Renders Eq (step host scope out i) (step host' scope' out i) := by
  have hsimple : L.Renders Eq (simple host scope i >>= fun s => Pure.pure (out ++ s, Flow.onward))
      (simple host' scope' i >>= fun s => Pure.pure (out ++ s, Flow.onward)) := by
    refine (alike_simple hh hs hfree).bindEq fun s => ?_
    exact .pure rfl
  cases i with
  | leave => exact .pure rfl
  | choose branches otherwise =>
    rw [bindsLoop] at hfree
    replace hfree := hfree.of_or
    refine (alike_choose hs out hfree.1).bindEq fun r => ?_
    cases r with
    | some r => exact .pure rfl
    | none => exact alike_run hs 0 out hfree.2
  | switch subject labels body =>
    refine (alike_value hh hs subject).bind fun v v' hv => ?_
    refine (alike_switchStart hh hs hv labels none).bindEq fun start => ?_
    cases start with
    | none => exact .pure rfl
    | some start =>
      refine (alike_run hs start out hfree).bindEq fun r => ?_
      exact .pure rfl
  | foreach source key item body =>
    rw [bindsLoop] at hfree
    obtain ⟨hnames, hbody⟩ := hfree.of_or
    refine (alike_value hh hs source).bind fun v v' hv => ?_
    refine (alike_loopEntries source hv).bind fun es es' hes => ?_
    refine (alike_loopDepth (hs.local? "loop") hs.loop).bindEq fun depth => ?_
    refine AlikeExcept.bind (R := Eq) (alike_iterate hes ?_ 0 out) ?_
    · intro index e e' out he
      rw [hes.length_eq]
      refine (AlikeExcept.lift (L.newObject
        (loopRecord_rel index es'.length depth (hs.local? "loop")))).bind ?_
      rintro record record' ⟨hrecord, hown⟩
      refine alike_run (hs.withLocals (loopVariables_rel hrecord key item he) ?_) 0 out hbody
      intro o ho
      by_cases hloop : key = some "loop" ∨ item = "loop"
      · exact L.own_of_loops (hnames (by simpa using hloop)) _
      · rw [not_or] at hloop
        rw [get?_loopVariables hloop.1 hloop.2] at ho
        cases ho
        exact hown
    · rintro out _ rfl
      exact .pure rfl
  | push stack body =>
    refine (alike_run hs 0 "" hfree).bindEq fun r => ?_
    refine (AlikeExcept.lift (hh.push stack r.1)).bind fun _ _ _ => ?_
    exact .pure rfl
  | _ => exact hsimple

lemma alike_choose {scope scope' : Scope} (hs : Scope.Alike L scope scope') (out : String)
    (hfree : L.Free (branchesBindLoop branches)) :
    L.Renders Eq (choose host scope out branches) (choose host' scope' out branches) := by
  cases branches with
  | nil => exact .pure rfl
  | cons branch rest =>
    obtain ⟨condition, body⟩ := branch
    rw [branchesBindLoop] at hfree
    replace hfree := hfree.of_or
    refine (alike_holds hh hs condition).bindEq fun b => ?_
    split
    · refine (alike_run hs 0 out hfree.1).bindEq fun r => ?_
      exact .pure rfl
    · exact alike_choose hs out hfree.2

end

end

end Render

lemma Routine.alike_render {r : Routine} (hfree : L.Free (bodyBindsLoop r.body))
    {F : Fragment H → Fragment H → Prop} (hh : host.Alike L F host')
    (hs : Scope.Alike L scope scope') :
    L.Renders Eq (r.render host scope) (r.render host' scope') := by
  refine (Render.alike_run hh hs 0 "" hfree).bindEq fun r => ?_
  exact .pure rfl

end LiveMarkup
