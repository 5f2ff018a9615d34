import LiveMarkup.Proofs.Confinement

/-!
# What trees mean

A template tree has a meaning of its own: walk along the nodes and do what each of them says.
`@elseif`, `@else`, `@case` and `@default` are siblings among the nodes that they divide, so a
conditional walks from the first condition that holds up to the next divider, and a switch walks
from the first label that fits to the end of its block, over all labels on the way.

Compiled, the same blocks have their nodes sorted into branches, or put into one body with labels
that point into it. `Compile.lowering_preserves_meaning` says that both are one program:
they give the same output and the same failures, and perform the same operations in the same order.

Nodes without a block are not interpreted here: they mean the instruction that they compile to.
-/

namespace LiveMarkup

open List Compile Render

namespace Meaning

/-! ## Walking a tree -/

/-- Where rendering stands behind a node: the variables in sight, the output so far, and whether a
break is on its way. -/
structure Point where
  scope : Scope
  out : String
  flow : Flow

def Point.result (r : Point) : String × Flow :=
  (r.out, r.flow)

/-- A part of the tree, read as the compiler reads it. In a template that compiles, all of them can
be read. -/
def parsed {α : Type} : M α → Rendering S α
  | .ok a => return a
  | .error e => throw (.fragment e.message)

def divides : Node → Bool
  | .directive name _ _ => name == "else" || name == "elseif"
  | _ => false

def isLabel : Node → Bool
  | .directive name _ _ => name == "case" || name == "default"
  | _ => false

def single (host : Host S H) (scope : Scope) (out : String) :
    List Instruction → Rendering S Point
  | [.inject binder service] => do
    let v ← injected host service
    return ⟨scope.withLocals (.ofList [(binder, v)]), out, .onward⟩
  | [i] => do
    let s ← simple host scope i
    return ⟨scope, out ++ s, .onward⟩
  | _ => return ⟨scope, out, .onward⟩

/-- The outcome of an expression, whether it has a value or fails. -/
def attempt (host : Host S H) (scope : Scope) (e : Expr) : Rendering S (Except EvalError Value) :=
  lift (e.eval (environment host scope)).run

/-- What a conditional directive asks about its argument. To `@isset` and `@empty` an unknown
variable and a part of nothing are as good as nothing; all other failures are failures. -/
def asks? (host : Host S H) (scope : Scope) : String → Option (Expr → Rendering S Bool)
  | "if" => some fun e => do
    let v ← Render.value host scope e
    return v.isTruthy
  | "unless" => some fun e => do
    let v ← Render.value host scope e
    return !v.isTruthy
  | "isset" => some fun e => do
    match ← attempt host scope e with
    | .ok .undefined | .ok .null => return false
    | .ok _ => return true
    | .error (.reference _) | .error (.value (.nullAccess _ _)) => return false
    | .error err => throw (.eval err)
  | "empty" => some fun e => do
    match ← attempt host scope e with
    | .ok (.list l) => do
      let n ← lift (Program.read (.length l))
      return n == 0
    | .ok v => return !v.isTruthy
    | .error (.reference _) | .error (.value (.nullAccess _ _)) => return true
    | .error err => throw (.eval err)
  | _ => none

mutual

def node (host : Host S H) (scope : Scope) (out : String) : Node → Rendering S Point
  | .root ns => nodes host scope out ns
  | .directive name args ns =>
    match asks? host scope name with
    | some ask => do
      let e ← parsed (argument name args)
      let b ← ask e
      let r ← if b then nodes host scope out ns else elses host scope out ns
      return ⟨scope, r.out, r.flow⟩
    | none =>
      match name with
      | "break" => return ⟨scope, out, .leave⟩
      | "case" | "default" => return ⟨scope, out, .onward⟩
      | "switch" => do
        let e ← parsed (argument "switch" args)
        let v ← Render.value host scope e
        let r ← cases host scope out v (fallback host scope out ns) ns
        return ⟨scope, r.out, .onward⟩
      | "foreach" => do
        let (source, l) ← parsed (loop args)
        let v ← Render.value host scope source
        let entries ← loopEntries source v
        let parent := scope.local? "loop"
        let depth ← loopDepth parent
        let out ← iterate
          (fun index entry out => do
            let record ← lift
              (Program.newObject (loopRecord index entries.length depth parent))
            let vars := loopVariables record l.key l.item entry
            let r ← nodes host (scope.withLocals vars) out ns
            return r.result)
          0 out entries
        return ⟨scope, out, .onward⟩
      | "section" => do
        let (_, rest) ← parsed (arguments "section" args)
        match rest with
        | value :: _ => do
          let e ← parsed (expression "@section" value)
          single host scope out [.echo e]
        | [] => nodes host scope out ns
      | "push" => do
        let (first, _) ← parsed (arguments "push" args)
        let r ← nodes host scope "" ns
        lift (host.push (Arguments.unquote first) r.out)
        return ⟨scope, out, .onward⟩
      | _ => do
        let is ← parsed (Compile.node true (.directive name args ns))
        single host scope out is
  | n => do
    let is ← parsed (Compile.node true n)
    single host scope out is

/-- Nodes one after the other, up to a break or to the divider that ends their branch. -/
def nodes (host : Host S H) (scope : Scope) (out : String) : List Node → Rendering S Point
  | [] => return ⟨scope, out, .onward⟩
  | n :: rest =>
    if divides n then return ⟨scope, out, .onward⟩
    else do
      let r ← node host scope out n
      match r.flow with
      | .leave => return r
      | .onward => nodes host r.scope r.out rest

/-- The branches behind the first one: the next whose condition holds, else the last. -/
def elses (host : Host S H) (scope : Scope) (out : String) : List Node → Rendering S Point
  | [] => return ⟨scope, out, .onward⟩
  | .directive "else" _ _ :: rest => nodes host scope out rest
  | .directive "elseif" args _ :: rest => do
    let e ← parsed (argument "elseif" args)
    let v ← Render.value host scope e
    if v.isTruthy then nodes host scope out rest else elses host scope out rest
  | _ :: rest => elses host scope out rest

/-- All nodes behind the first case that strictly equals the subject, else `otherwise`. -/
def cases (host : Host S H) (scope : Scope) (out : String) (subject : Value)
    (otherwise : Rendering S Point) : List Node → Rendering S Point
  | [] => otherwise
  | .directive "case" args _ :: rest => do
    let e ← parsed (argument "case" args)
    let v ← Render.value host scope e
    if v.strictEq subject then nodes host scope out rest
    else cases host scope out subject otherwise rest
  | _ :: rest => cases host scope out subject otherwise rest

/-- All nodes behind the default label, wherever it stands. -/
def fallback (host : Host S H) (scope : Scope) (out : String) : List Node → Rendering S Point
  | [] => return ⟨scope, out, .onward⟩
  | .directive "default" _ _ :: rest => nodes host scope out rest
  | _ :: rest => fallback host scope out rest

end

/-! ## Instructions with the meaning of nodes -/

@[simp]
lemma parsed_ok (a : α) : (parsed (.ok a) : Rendering S α) = pure a := rfl

def resume (host : Host S H) (more : List Instruction) (r : Point) :
    Rendering S (String × Flow) :=
  match r.flow with
  | .leave => return (r.out, .leave)
  | .onward => Render.run host r.scope 0 r.out more

/-- Instructions that do what `m` does, whatever stands behind them. -/
def Means (host : Host S H) (is : List Instruction) (m : Scope → String → Rendering S Point) :
    Prop :=
  ∀ scope out more, Render.run host scope 0 out (is ++ more) = m scope out >>= resume host more

lemma means_nil : Means host [] fun scope out => pure ⟨scope, out, .onward⟩ := by
  intro scope out more
  rfl

/-- One thing after the other, unless the first one breaks. -/
def andThen (m k : Scope → String → Rendering S Point) (scope : Scope) (out : String) :
    Rendering S Point := do
  let r ← m scope out
  match r.flow with
  | .leave => return r
  | .onward => k r.scope r.out

lemma Means.append (hi : Means host is m) (hj : Means host js k) :
    Means host (is ++ js) (andThen m k) := by
  intro scope out more
  rw [append_assoc, hi, andThen, bind_assoc]
  refine bind_congr fun r => ?_
  obtain ⟨scope, out, flow⟩ := r
  -- a break in the first part passes the second part and all that stands behind it
  cases flow with
  | leave => simp [resume]
  | onward => exact hj scope out more

lemma Means.run (h : Means host is m) (scope : Scope) (out : String) :
    run host scope 0 out is = Point.result <$> m scope out := by
  have hrun := h scope out []
  rw [append_nil] at hrun
  rw [hrun, map_eq_pure_bind]
  refine bind_congr fun r => ?_
  obtain ⟨scope, out, flow⟩ := r
  cases flow <;> rfl

lemma means_of_step {i : Instruction} (hi : ∀ binder service, i ≠ .inject binder service)
    {m : Scope → String → Rendering S Point}
    (h : ∀ scope out, m scope out = do
      let r ← step host scope out i
      return ⟨scope, r.1, r.2⟩) : Means host [i] m := by
  intro scope out more
  rw [singleton_append, run_cons hi, h, bind_assoc]
  refine bind_congr fun r => ?_
  rw [pure_bind]
  rfl

lemma means_inject (binder service : String) :
    Means host [.inject binder service] (single host · · [.inject binder service]) := by
  intro scope out more
  have hsingle : single host scope out [.inject binder service] = injected host service >>= fun v =>
        pure ⟨scope.withLocals (.ofList [(binder, v)]), out, .onward⟩ := rfl
  show _ = single host scope out [.inject binder service] >>= _
  rw [singleton_append, run_inject, hsingle, bind_assoc]
  refine bind_congr fun v => ?_
  rw [pure_bind]
  rfl

lemma single_of_ne (hi : ∀ binder service, i ≠ .inject binder service) (scope : Scope)
    (out : String) : single host scope out [i] =
      simple host scope i >>= fun s => pure ⟨scope, out ++ s, .onward⟩ := by
  cases i with
  | inject binder service => exact absurd rfl (hi binder service)
  | _ => rfl

lemma means_single {i : Instruction} (hi : ∀ binder service, i ≠ .inject binder service)
    (h : ∀ scope out, step host scope out i = do
      let s ← simple host scope i
      return (out ++ s, .onward)) :
    Means host [i] (single host · · [i]) := by
  refine means_of_step hi fun scope out => ?_
  rw [h, bind_assoc, single_of_ne hi]
  rfl

lemma means_flat (h : i.isFlat = true) :
    Means host [i] (single host · · [i]) := by
  refine means_single (fun binder service heq => ?_) fun scope out => ?_
  · rw [heq] at h
    cases h
  · cases i with
    | leave | choose | switch | foreach | push => cases h
    | _ => rfl

/-! ## Conditionals -/

lemma resolve_eq (scope : Scope) (e : Expr) : resolve host scope e = (do
    match ← attempt host scope e with
    | .ok v => return some v
    | .error err => if isUnresolvable err then return none else throw (.eval err)) := by
  refine ExceptT.ext ?_
  rw [attempt, lift, ExceptT.run_bind_lift]
  refine bind_congr fun r => ?_
  cases r with
  | ok v => rfl
  | error err => cases hu : isUnresolvable err <;> simp only [hu] <;> rfl

/-- The conditions that the compiler knows are those that are asked for. -/
lemma asks?_of_condition? (h : condition? name = some test) (scope : Scope) :
    asks? host scope name = some fun e => holds host scope (test e) := by
  unfold condition? at h
  split at h <;> cases h
  · rfl
  · rfl
  all_goals
    refine congrArg some (funext fun e => ?_)
    rw [holds, resolve_eq, bind_assoc]
    refine bind_congr fun r => ?_
    obtain err | v := r
    · rcases err with _ | _ | (_ | _)
      all_goals rfl
    · cases v <;> rfl

lemma asks?_of_none (h : condition? name = none) (scope : Scope) :
    asks? host scope name = none := by
  unfold asks?
  split <;> first | cases h | rfl

lemma homeOf?_eq_none_iff : homeOf? name = none ↔ divides (.directive name args ns) = false ∧
      isLabel (.directive name args ns) = false := by
  unfold homeOf?
  split <;> simp_all [divides, isLabel]

lemma divides_of_compiles (h : Compiles b n is) : divides n = false ∧ isLabel n = false := by
  cases h with
  | root | text | echo | tag
  | leave | switch | foreach | sectionValue | sectionBlock | push | component => exact ⟨rfl, rfl⟩
  | simple hname => exact homeOf?_eq_none_iff.mp hname.2.1
  | conditional ht =>
    refine homeOf?_eq_none_iff.mp ?_
    unfold condition? at ht
    split at ht
    case h_5 => cases ht
    all_goals rfl

lemma nodes_cons (h : divides n = false) (rest : List Node) :
    (nodes host · · (n :: rest)) = andThen (node host · · n) (nodes host · · rest) := by
  funext scope out
  rw [nodes, h]
  rfl

lemma elses_cons (h : divides n = false) (rest : List Node) (scope : Scope)
    (out : String) : elses host scope out (n :: rest) = elses host scope out rest := by
  conv_lhs => unfold elses
  split <;> simp_all [divides]

/-- The branches that are still to be tried, and the last one. -/
def tryBranches (host : Host S H) (scope : Scope) (out : String)
    (branches : List (Condition × List Instruction)) (otherwise : List Instruction) :
    Rendering S (String × Flow) := do
  match ← choose host scope out branches with
  | some r => return r
  | none => Render.run host scope 0 out otherwise

lemma tryBranches_cons (scope : Scope) (out : String) (c : Condition) (body : List Instruction)
    (branches : List (Condition × List Instruction)) (otherwise : List Instruction) :
    tryBranches host scope out ((c, body) :: branches) otherwise =
      holds host scope c >>= fun b => if b then run host scope 0 out body
        else tryBranches host scope out branches otherwise := by
  unfold tryBranches
  rw [Render.choose, bind_assoc]
  refine bind_congr fun b => ?_
  split
  · simp
  · rfl

/-- The instruction `i` is made of the parts `p`, of the nodes up to the next divider, and of the
branches behind that divider. -/
def Completes (host : Host S H) (p : BranchParts) (ns : List Node) (i : Instruction) :
    Prop :=
  ∃ is, Means host is (nodes host · · ns) ∧
    match p.condition with
    | none => i = .choose p.branches (p.body ++ is)
    | some c => ∃ branches otherwise,
      i = .choose (p.branches ++ (c, p.body ++ is) :: branches) otherwise ∧
        ∀ scope out, tryBranches host scope out branches otherwise =
          Point.result <$> elses host scope out ns

lemma completes_nil (p : BranchParts) : Completes host p [] p.finish := by
  obtain ⟨branches, c, body⟩ := p
  refine ⟨[], means_nil, ?_⟩
  cases c with
  | none => simp [BranchParts.finish]
  | some c => exact ⟨[], [], by simp [BranchParts.finish], fun scope out => rfl⟩

section Steps

lemma completes_otherwise (h : Completes host ⟨branches ++ [(c, body)], none, []⟩ ns i) :
    Completes host ⟨branches, some c, body⟩ (.directive "else" args cs :: ns) i := by
  obtain ⟨is, hmeans, hi⟩ := h
  exact ⟨[], means_nil, [], is, by simpa using hi, hmeans.run⟩

lemma completes_elseif (he : argument "elseif" args = .ok e)
    (h : Completes host ⟨branches ++ [(c, body)], some (.truthy e), []⟩ ns i) :
    Completes host ⟨branches, some c, body⟩ (.directive "elseif" args cs :: ns) i := by
  obtain ⟨is, hmeans, more, otherwise, hi, hmore⟩ := h
  -- the nodes up to the divider are none; those behind it are the first of the further branches
  refine ⟨[], means_nil, (.truthy e, is) :: more, otherwise, by simpa using hi, fun scope out => ?_⟩
  rw [tryBranches_cons, elses, he, parsed_ok, pure_bind, map_bind, holds, bind_assoc]
  refine bind_congr fun v => ?_
  rw [pure_bind]
  split
  · exact hmeans.run scope out
  · exact hmore scope out

lemma completes_node (hn : Means host is (node host · · n))
    (hd : divides n = false) (h : Completes host ⟨branches, c, body ++ is⟩ ns i) :
    Completes host ⟨branches, c, body⟩ (n :: ns) i := by
  obtain ⟨js, hmeans, hi⟩ := h
  refine ⟨is ++ js, ?_, ?_⟩
  · rw [nodes_cons hd]
    exact hn.append hmeans
  · cases c with
    | none => simpa using hi
    | some c =>
      obtain ⟨more, otherwise, hi, hmore⟩ := hi
      refine ⟨more, otherwise, by simpa using hi, fun scope out => ?_⟩
      rw [elses_cons hd]
      exact hmore scope out

end Steps

/-! ## Switches -/

lemma cases_cons (h : isLabel n = false) (rest : List Node) (scope : Scope) (out : String)
    (subject : Value) (otherwise : Rendering S Point) :
    cases host scope out subject otherwise (n :: rest) =
      cases host scope out subject otherwise rest := by
  conv_lhs => unfold cases
  split <;> simp_all [isLabel]

lemma fallback_cons (h : isLabel n = false) (rest : List Node) (scope : Scope) (out : String) :
    fallback host scope out (n :: rest) = fallback host scope out rest := by
  conv_lhs => unfold fallback
  split <;> simp_all [isLabel]

lemma run_skip (scope : Scope) (out : String) (front back : List Instruction) :
    run host scope front.length out (front ++ back) = run host scope 0 out back := by
  induction front with
  | nil => rfl
  | cons i front ih => exact ih

def defaultOf : List (Option Expr × Nat) → Option Nat
  | [] => none
  | (none, position) :: _ => some position
  | (some _, _) :: rest => defaultOf rest

/-- A body from a label on, or nothing when no label fits. -/
def enter (host : Host S H) (scope : Scope) (out : String) (body : List Instruction) :
    Option Nat → Rendering S (String × Flow)
  | none => return (out, .onward)
  | some start => Render.run host scope start out body

/-- The switch `q` is made of the parts `p` and of the nodes `ns`: its further labels point to where
the nodes behind the labels start. -/
structure Extends (host : Host S H) (p : SwitchParts) (ns : List Node)
    (q : SwitchParts) (labels : List (Option Expr × Nat)) (is : List Instruction) :
    Prop where
  labels_eq : q.labels = p.labels ++ labels
  body_eq : q.body = p.body ++ is
  means : p.labels ≠ [] → Means host is (nodes host · · ns)
  fallback : ∀ scope out, enter host scope out q.body (defaultOf labels) =
    Point.result <$> Meaning.fallback host scope out ns
  cases : ∀ scope out subject found otherwise,
    enter host scope out q.body (found <|> defaultOf labels) = Point.result <$> otherwise →
      (switchStart host scope subject labels found >>= enter host scope out q.body) =
        Point.result <$> Meaning.cases host scope out subject otherwise ns

lemma extends_nil (p : SwitchParts) : Extends host p [] p [] [] where
  labels_eq := by simp
  body_eq := by simp
  means _ := means_nil
  fallback scope out := rfl
  cases scope out subject found otherwise h := by
    have hfound : (found <|> defaultOf []) = found := by
      cases found <;> rfl
    rw [hfound] at h
    exact h

section Steps

lemma extends_case (ht : argument "case" args = .ok test)
    (h : Extends host ⟨labels ++ [(some test, body.length)], body⟩ ns q more is) :
    Extends host ⟨labels, body⟩ (.directive "case" args cs :: ns) q
      ((some test, body.length) :: more) is where
  labels_eq := by simpa using h.labels_eq
  body_eq := h.body_eq
  means _ := h.means (by simp)
  fallback scope out := h.fallback scope out
  cases scope out subject found otherwise hfound := by
    rw [switchStart, cases, ht, parsed_ok, pure_bind, bind_assoc, map_bind]
    refine bind_congr fun v => ?_
    split
    · -- the label points to the end of the body so far, so what runs is what comes behind it
      rw [pure_bind, enter, h.body_eq, run_skip]
      exact (h.means (by simp)).run scope out
    · exact h.cases scope out subject found otherwise hfound

lemma extends_default (h : Extends host ⟨labels ++ [(none, body.length)], body⟩ ns q more is) :
    Extends host ⟨labels, body⟩ (.directive "default" args cs :: ns) q
      ((none, body.length) :: more) is where
  labels_eq := by simpa using h.labels_eq
  body_eq := h.body_eq
  means _ := h.means (by simp)
  fallback scope out := by
    rw [defaultOf, enter, h.body_eq, run_skip]
    exact (h.means (by simp)).run scope out
  cases scope out subject found otherwise hfound := by
    rw [switchStart]
    -- an earlier default keeps its place
    refine h.cases scope out subject (found <|> some body.length) otherwise ?_
    rw [← hfound]
    cases found <;> rfl

lemma extends_blank (hn : n.isBlankText = true) (h : Extends host ⟨[], body⟩ ns q more is) :
    Extends host ⟨[], body⟩ (n :: ns) q more is := by
  have hlabel : isLabel n = false := by
    cases n with
    | text => rfl
    | _ => cases hn
  exact { h with
      -- blanks stand in front of the first label only, where nothing can be entered
      means := fun hne => absurd rfl hne
      fallback := fun scope out => by
        rw [fallback_cons hlabel]
        exact h.fallback scope out
      cases := fun scope out subject found otherwise hfound => by
        rw [cases_cons hlabel]
        exact h.cases scope out subject found otherwise hfound }

lemma extends_node (hn : Means host is (node host · · n))
    (hd : divides n = false) (hlabel : isLabel n = false) (hlabels : labels ≠ [])
    (h : Extends host ⟨labels, body ++ is⟩ ns q more js) :
    Extends host ⟨labels, body⟩ (n :: ns) q more (is ++ js) where
  labels_eq := h.labels_eq
  body_eq := by simpa using h.body_eq
  means _ := by
    rw [nodes_cons hd]
    exact hn.append (h.means hlabels)
  fallback scope out := by
    rw [fallback_cons hlabel]
    exact h.fallback scope out
  cases scope out subject found otherwise hfound := by
    rw [cases_cons hlabel]
    exact h.cases scope out subject found otherwise hfound

end Steps

/-! ## All nodes -/

lemma node_of_compile (hn : Compile.node true n = .ok is) (h : ∀ scope out, node host scope out n =
    parsed (Compile.node true n) >>= fun is => single host scope out is) :
    (node host · · n) = (single host · · is) := by
  funext scope out
  rw [h, hn, parsed_ok, pure_bind]

section Nodes

lemma means_echo (he : expression "\x7b\x7b \x7d\x7d" source = .ok e) :
    Means host [.echo e] (node host · · (.echo source)) := by
  have hnode : Compile.node true (.echo source) = .ok [.echo e] := by
    rw [Compile.node, he]
    rfl
  rw [node_of_compile hnode fun scope out => rfl]
  exact means_flat rfl

lemma means_tag (hv : attributes tag (TagText.attributes attrs) = .ok values)
    (hp : slotBodies {} ns = .ok p) :
    Means host [.component (componentName tag) values p.finish]
      (node host · · (.component tag attrs ns)) := by
  have hnode : Compile.node true (.component tag attrs ns) =
      .ok [.component (componentName tag) values p.finish] := by
    rw [Compile.node, hv, hp]
    rfl
  rw [node_of_compile hnode fun scope out => rfl]
  exact means_single (by simp) fun scope out => rfl

lemma means_component (ha : arguments "component" args = .ok (first, rest))
    (hb : Compile.nodes false ns = .ok is) (hv : Compile.expression "@component" first = .ok view)
    (hd : optional "@component" rest.head? = .ok data) :
    Means host [.namedComponent view data (if ns.isEmpty then none else some is)]
      (node host · · (.directive "component" args ns)) := by
  have hnode : Compile.node true (.directive "component" args ns) =
      .ok [.namedComponent view data (if ns.isEmpty then none else some is)] := by
    show (arguments "component" args >>= _) = _
    rw [ha]
    show (Compile.nodes false ns >>= _) = _
    rw [hb]
    show (expression "@component" first >>= _) = _
    rw [hv]
    show (optional "@component" rest.head? >>= _) = _
    rw [hd]
    rfl
  rw [node_of_compile hnode fun scope out => rfl]
  exact means_single (by simp) fun scope out => rfl

lemma means_simple (hname : IsSimple name) (hi : simple name args = .ok i) :
    Means host [i] (node host · · (.directive name args ns)) := by
  obtain ⟨hcond, hhome, hbody⟩ := hname
  have hcompile : Compile.node true (.directive name args ns) = .ok [i] := by
    unfold Compile.node
    rw [hcond, hhome]
    split
    all_goals simp_all [bodyNames]
  have hnode : ∀ scope out, node host scope out (.directive name args ns) =
      parsed (Compile.node true (.directive name args ns)) >>= fun is =>
        single host scope out is := by
    intro scope out
    unfold node
    rw [asks?_of_none hcond]
    dsimp only
    split
    all_goals simp_all [bodyNames, homeOf?]
  rw [node_of_compile hcompile hnode]
  obtain ⟨-, binder, service, rfl⟩ | ⟨-, hflat⟩ := simple_cases hi
  · exact means_inject binder service
  · exact means_flat hflat

lemma means_conditional {p : BranchParts} (ht : condition? name = some test)
    (he : argument name args = .ok e)
    (h : Completes host { condition := some (test e) } ns p.finish) :
    Means host [p.finish] (node host · · (.directive name args ns)) := by
  obtain ⟨is, hmeans, branches, otherwise, hfinish, hbranches⟩ := h
  rw [hfinish]
  refine means_of_step (by simp) fun scope out => ?_
  have hnode : node host scope out (.directive name args ns) = (do
      let b ← holds host scope (test e)
      let r ← if b then nodes host scope out ns else elses host scope out ns
      return ⟨scope, r.out, r.flow⟩) := by
    unfold node
    rw [asks?_of_condition? ht]
    show (parsed (argument name args) >>= _) = _
    rw [he, parsed_ok, pure_bind]
  have hstep : step host scope out (.choose ((test e, is) :: branches) otherwise) =
      tryBranches host scope out ((test e, is) :: branches) otherwise := rfl
  rw [hnode]
  simp only [nil_append, hstep, tryBranches_cons, bind_assoc]
  refine bind_congr fun b => ?_
  split
  · rw [hmeans.run scope out, bind_map_left]
    rfl
  · rw [hbranches scope out, bind_map_left]
    rfl

lemma means_switch (hs : argument "switch" args = .ok subject)
    (h : Extends host {} ns p labels is) :
    Means host [.switch subject p.labels p.body] (node host · · (.directive "switch" args ns)) := by
  refine means_of_step (by simp) fun scope out => ?_
  have hnode : node host scope out (.directive "switch" args ns) = (do
      let v ← value host scope subject
      let r ← cases host scope out v (fallback host scope out ns) ns
      return ⟨scope, r.out, .onward⟩) := by
    show (parsed (argument "switch" args) >>= _) = _
    rw [hs, parsed_ok, pure_bind]
  have hstep : step host scope out (.switch subject p.labels p.body) = (do
      let v ← value host scope subject
      let r ← switchStart host scope v p.labels none >>= enter host scope out p.body
      return (r.1, .onward)) := by
    rw [step]
    refine bind_congr fun v => ?_
    rw [bind_assoc]
    refine bind_congr fun start => ?_
    cases start <;> simp [enter]
  rw [hnode, hstep, bind_assoc]
  refine bind_congr fun v => ?_
  -- before the first label there is no position to fall back on but that of the default
  have hcases := h.cases scope out v none (fallback host scope out ns) (h.fallback scope out)
  rw [h.labels_eq]
  rw [nil_append, hcases, bind_map_left, bind_assoc]
  refine bind_congr fun r => ?_
  rw [pure_bind]
  rfl

lemma means_foreach (hl : loop args = .ok (source, l))
    (h : Means host is (nodes host · · ns)) :
    Means host [.foreach source l.key l.item is] (node host · · (.directive "foreach" args ns)) := by
  refine means_of_step (by simp) fun scope out => ?_
  show (parsed (loop args) >>= _) = _
  rw [hl, parsed_ok, pure_bind, step]
  simp only [h.run, map_eq_pure_bind, bind_assoc, pure_bind]

lemma means_sectionValue {value : String}
    (ha : arguments "section" args = .ok (first, value :: rest))
    (he : expression "@section" value = .ok e) :
    Means host [.echo e] (node host · · (.directive "section" args ns)) := by
  have hnode : (node host · · (.directive "section" args ns)) = (single host · · [.echo e]) := by
    funext scope out
    show (parsed (arguments "section" args) >>= _) = _
    rw [ha, parsed_ok, pure_bind]
    show (parsed (expression "@section" value) >>= _) = _
    rw [he, parsed_ok, pure_bind]
  rw [hnode]
  exact means_flat rfl

lemma means_sectionBlock (ha : arguments "section" args = .ok (first, []))
    (h : Means host is (nodes host · · ns)) :
    Means host is (node host · · (.directive "section" args ns)) := by
  have hnode : (node host · · (.directive "section" args ns)) = (nodes host · · ns) := by
    funext scope out
    show (parsed (arguments "section" args) >>= _) = _
    rw [ha, parsed_ok, pure_bind]
  rw [hnode]
  exact h

lemma means_push (ha : arguments "push" args = .ok (first, rest))
    (h : Means host is (nodes host · · ns)) :
    Means host [.push (Arguments.unquote first) is]
      (node host · · (.directive "push" args ns)) := by
  refine means_of_step (by simp) fun scope out => ?_
  show (parsed (arguments "push" args) >>= _) = _
  rw [ha, parsed_ok, pure_bind, step]
  simp only [h.run, map_eq_pure_bind, bind_assoc, pure_bind]
  rfl

end Nodes

mutual

/-- What a node compiles to does what the node says. -/
lemma means_of_compiles {n : Node} {is : List Instruction} :
    Compile.Compiles b n is → Means host is (node host · · n)
  | .root h => means_of_compilesAll h
  | .text => means_flat rfl
  | .echo he => means_echo he
  | .tag hv hp _ => means_tag hv hp
  | .conditional ht he h => means_conditional ht he (completes_of_compilesBranches h)
  | .leave => means_of_step (by simp) fun scope out => rfl
  | .switch hs h => by
    obtain ⟨labels, is, hext⟩ := extends_of_compilesLabels h
    exact means_switch hs hext
  | .foreach hl h => means_foreach hl (means_of_compilesAll h)
  | .sectionValue ha he => means_sectionValue ha he
  | .sectionBlock ha h => means_sectionBlock ha (means_of_compilesAll h)
  | .push ha h => means_push ha (means_of_compilesAll h)
  | .component ha hb _ hv hd => means_component ha hb hv hd
  | .simple hname hi => means_simple hname hi

lemma means_of_compilesAll {ns : List Node} {is : List Instruction} :
    CompilesAll b ns is → Means host is (nodes host · · ns)
  | .nil => means_nil
  | .cons _ hn h => by
    rw [nodes_cons (divides_of_compiles hn).1]
    exact (means_of_compiles hn).append (means_of_compilesAll h)

lemma completes_of_compilesBranches : CompilesBranches b p ns q → Completes host p ns q.finish
  | .nil => completes_nil _
  | .otherwise h => completes_otherwise (completes_of_compilesBranches h)
  | .elseif he h => completes_elseif he (completes_of_compilesBranches h)
  | .node _ hn h =>
    completes_node (means_of_compiles hn) (divides_of_compiles hn).1
      (completes_of_compilesBranches h)

lemma extends_of_compilesLabels : CompilesLabels p ns q → ∃ labels is, Extends host p ns q labels is
  | .nil => ⟨[], [], extends_nil _⟩
  | .case ht h => by
    obtain ⟨labels, is, hext⟩ := extends_of_compilesLabels h
    exact ⟨_, _, extends_case ht hext⟩
  | .default _ h => by
    obtain ⟨labels, is, hext⟩ := extends_of_compilesLabels h
    exact ⟨_, _, extends_default hext⟩
  | .blank hn h => by
    obtain ⟨labels, is, hext⟩ := extends_of_compilesLabels h
    exact ⟨_, _, extends_blank hn hext⟩
  | .node hlabels _ hn h => by
    obtain ⟨labels, is, hext⟩ := extends_of_compilesLabels h
    exact ⟨_, _, extends_node (means_of_compiles hn) (divides_of_compiles hn).1
      (divides_of_compiles hn).2 hlabels hext⟩

end

end Meaning

/-- Whether a directive is divided by its children: a conditional or a switch. -/
def Compile.isDivided (name : String) : Bool :=
  name ∈ ["if", "unless", "isset", "empty", "switch"]

/-- The labels of a switch point into its body or behind it. -/
def Instruction.LabelsInside : Instruction → Prop
  | .switch _ labels body => ∀ l ∈ labels, l.2 ≤ body.length
  | .choose _ _ => True
  | _ => False

lemma Compile.labels_inside (h : CompilesLabels {} ns q) : ∀ l ∈ q.labels, l.2 ≤ q.body.length := by
  have hany : Hereditary fun _ _ => True := by constructor <;> simp
  exact (hany.of_compilesLabels h (by simp) trivial).1

/-- A conditional or switch that compiles is one instruction, a choice or a switch whose labels lie
within its body, and running that instruction is the same program as walking the tree. -/
theorem Compile.lowering_preserves_meaning {breakable : Bool} {name : String}
    {args : Option String} {ns : List Node} {is : List Instruction}
    (hname : Compile.isDivided name = true)
    (h : Compile.node breakable (.directive name args ns) = .ok is) :
    ∃ i, is = [i] ∧ i.LabelsInside ∧
      ∀ {S : Signature} {H : Type} (host : Host S H) (scope : Scope) (out : String),
        Render.step host scope out i =
          Meaning.Point.result <$> Meaning.node host scope out (.directive name args ns) := by
  have hcompiles := compiles_of_node _ h
  obtain ⟨i, rfl, hlabels, hinject⟩ : ∃ i, is = [i] ∧ i.LabelsInside ∧
      ∀ binder service, i ≠ .inject binder service := by
    cases hcompiles with
    | @conditional _ _ _ _ _ _ p _ _ hbranches =>
      obtain ⟨branches, c, body⟩ := p
      cases c with
      | none | some c => exact ⟨_, rfl, trivial, by simp [Compile.BranchParts.finish]⟩
    | switch _ hbody => exact ⟨_, rfl, labels_inside hbody, by simp⟩
    | simple hsimple =>
      simp only [isDivided, decide_eq_true_eq, mem_cons, not_mem_nil, or_false] at hname
      rcases hname with rfl | rfl | rfl | rfl | rfl <;>
        simp [IsSimple, condition?, bodyNames] at hsimple
    | leave | foreach | sectionValue | sectionBlock | push | component => simp [isDivided] at hname
  refine ⟨i, rfl, hlabels, fun host scope out => ?_⟩
  -- Nothing stands behind the instruction, so what follows it is the end of the body.
  have hmeans : Meaning.Means host [i] fun scope out =>
      Meaning.node host scope out (.directive name args ns) := Meaning.means_of_compiles hcompiles
  rw [← hmeans.run scope out, run_cons hinject]
  conv_lhs => rw [← bind_pure (step host scope out i)]
  refine bind_congr fun r => ?_
  obtain ⟨out, flow⟩ := r
  cases flow <;> rfl

/-- The children of a switch with its default label in front, a conditional that breaks in one of
its branches, and a section that adds two instructions to the body. -/
def exhibits : List Node :=
  [.text "  ", .directive "default" none [], .text "any",
    .directive "case" (some "pic") [],
    .directive "if" (some "pic")
      [.directive "break" none [], .directive "elseif" (some "pic") [], .text "oil",
        .directive "else" none [], .text "ink"],
    .directive "section" (some "pic") [.echo "pic", .text "!"],
    .directive "case" (some "pic") [], .text "last"]

def exhibitSwitch : Instruction :=
  .switch (.name "pic") [(none, 0), (some (.name "pic"), 1), (some (.name "pic"), 4)]
    [.text "any",
      .choose [(.truthy (.name "pic"), [.leave]), (.truthy (.name "pic"), [.text "oil"])]
        [.text "ink"],
      .echo (.name "pic"), .text "!", .text "last"]

lemma exhibits_compile :
    node false (.directive "switch" (some "pic") exhibits) = .ok [exhibitSwitch] := by
  have hblank : (Node.text "  ").isBlankText = true := by decide +kernel
  simp [exhibits, exhibitSwitch, nodes, node, condition?, homeOf?,
    branchBodies, switchBody, expression_pic, argument_pic,
    arguments_pic, hblank, bind, Except.bind, pure, Except.pure,
    BranchParts.finish]

theorem Compile.lowering_preserves_meaning_exhibits :
    Compile.isDivided "switch" = true ∧
    Compile.node false (.directive "switch" (some "pic") exhibits) = .ok [exhibitSwitch] ∧
    exhibitSwitch.LabelsInside ∧
      ∀ {S : Signature} {H : Type} (host : Host S H) (scope : Scope) (out : String),
        Render.step host scope out exhibitSwitch =
          Meaning.Point.result <$>
            Meaning.node host scope out (.directive "switch" (some "pic") exhibits) := by
  have hname : isDivided "switch" = true := by decide
  obtain ⟨i, hi, hlabels, hstep⟩ := lowering_preserves_meaning hname exhibits_compile
  obtain rfl : exhibitSwitch = i := by simpa using hi
  exact ⟨hname, exhibits_compile, hlabels, hstep⟩

end LiveMarkup
