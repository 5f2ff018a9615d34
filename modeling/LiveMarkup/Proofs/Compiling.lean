import LiveMarkup.Routine.Compile
import Mathlib.Tactic.Lemma

/-!
# What trees compile to

The compiler as a relation: one rule for each way in which a node, a list of siblings, the branches
of a conditional, the body of a switch or the slots of a component can compile. `compiles_of_node`
reads the compiler off as that relation once and for all, guards and failures of sub-expressions
included, so that proofs about compiled templates never open the compiler again.
`Compile.Hereditary` goes through the rules once for whatever bodies hand on.
-/

namespace LiveMarkup

open List Compile Routine

def Instruction.isFlat : Instruction → Bool
  | .text _ | .echo _ | .json _ | .classes _ | .style _ | .flag _ _ | .click _ | .model _ _
  | .yieldSection _ _ | .stack _ | .includeView _ _ => true
  | _ => false

namespace Compile

lemma ok_of_bind {f : α → Except ε β} (h : x >>= f = .ok r) : ∃ a, x = .ok a ∧ f a = .ok r := by
  cases x with
  | error e => cases h
  | ok a => exact ⟨a, rfl, h⟩

/-- Directives with a rule of their own, apart from conditionals. -/
def bodyNames : List String :=
  ["break", "switch", "foreach", "section", "push", "component"]

/-- Directives that compile without looking at their children. -/
def IsSimple (name : String) : Prop :=
  condition? name = none ∧ homeOf? name = none ∧ name ∉ bodyNames

mutual

inductive Compiles : Bool → Node → List Instruction → Prop
  | root {b ns is} (h : CompilesAll b ns is) : Compiles b (.root ns) is
  | text {b s} : Compiles b (.text s) [.text s]
  | echo {b source e} (he : expression "\x7b\x7b \x7d\x7d" source = .ok e) :
    Compiles b (.echo source) [.echo e]
  | tag {b tag attrs ns values p} (hv : attributes tag (TagText.attributes attrs) = .ok values)
    (hp : slotBodies {} ns = .ok p) (h : CompilesSlots {} ns p) :
    Compiles b (.component tag attrs ns) [.component (componentName tag) values p.finish]
  | conditional {b name args ns test e p} (ht : condition? name = some test)
    (he : argument name args = .ok e)
    (h : CompilesBranches b { condition := some (test e) } ns p) :
    Compiles b (.directive name args ns) [p.finish]
  | leave {args ns} : Compiles true (.directive "break" args ns) [.leave]
  | switch {b args ns subject p} (hs : argument "switch" args = .ok subject)
    (h : CompilesLabels {} ns p) :
    Compiles b (.directive "switch" args ns) [.switch subject p.labels p.body]
  | foreach {b args ns source l is} (hl : loop args = .ok (source, l))
    (h : CompilesAll true ns is) :
    Compiles b (.directive "foreach" args ns) [.foreach source l.key l.item is]
  | sectionValue {b args ns first value rest e}
    (ha : arguments "section" args = .ok (first, value :: rest))
    (he : expression "@section" value = .ok e) :
    Compiles b (.directive "section" args ns) [.echo e]
  | sectionBlock {b args ns first is} (ha : arguments "section" args = .ok (first, []))
    (h : CompilesAll b ns is) : Compiles b (.directive "section" args ns) is
  | push {b args ns first rest is} (ha : arguments "push" args = .ok (first, rest))
    (h : CompilesAll false ns is) :
    Compiles b (.directive "push" args ns) [.push (Arguments.unquote first) is]
  | component {b args ns first rest is view data}
    (ha : arguments "component" args = .ok (first, rest)) (hb : nodes false ns = .ok is)
    (h : CompilesAll false ns is) (hv : expression "@component" first = .ok view)
    (hd : optional "@component" rest.head? = .ok data) :
    Compiles b (.directive "component" args ns)
      [.namedComponent view data (if ns.isEmpty then none else some is)]
  | simple {b name args ns i} (hname : IsSimple name) (hi : simple name args = .ok i) :
    Compiles b (.directive name args ns) [i]

/-- What siblings compile to. -/
inductive CompilesAll : Bool → List Node → List Instruction → Prop
  | nil {b} : CompilesAll b [] []
  | cons {b n ns is more} (hnode : node b n = .ok is) (hn : Compiles b n is)
    (h : CompilesAll b ns more) : CompilesAll b (n :: ns) (is ++ more)

/-- How the children of a conditional add to its parts. -/
inductive CompilesBranches : Bool → BranchParts → List Node → BranchParts → Prop
  | nil {b p} : CompilesBranches b p [] p
  | otherwise {b bs c body args cs ns p}
    (h : CompilesBranches b ⟨bs ++ [(c, body)], none, []⟩ ns p) :
    CompilesBranches b ⟨bs, some c, body⟩ (.directive "else" args cs :: ns) p
  | elseif {b bs c body args cs ns e p} (he : argument "elseif" args = .ok e)
    (h : CompilesBranches b ⟨bs ++ [(c, body)], some (.truthy e), []⟩ ns p) :
    CompilesBranches b ⟨bs, some c, body⟩ (.directive "elseif" args cs :: ns) p
  | node {b bs c body n is ns p} (hnode : node b n = .ok is) (hn : Compiles b n is)
    (h : CompilesBranches b ⟨bs, c, body ++ is⟩ ns p) :
    CompilesBranches b ⟨bs, c, body⟩ (n :: ns) p

/-- How the children of a switch add to its parts. -/
inductive CompilesLabels : SwitchParts → List Node → SwitchParts → Prop
  | nil {p} : CompilesLabels p [] p
  | case {labels body args cs ns test p} (ht : argument "case" args = .ok test)
    (h : CompilesLabels ⟨labels ++ [(some test, body.length)], body⟩ ns p) :
    CompilesLabels ⟨labels, body⟩ (.directive "case" args cs :: ns) p
  | default {labels body args cs ns p} (hone : labels.any (·.1.isNone) = false)
    (h : CompilesLabels ⟨labels ++ [(none, body.length)], body⟩ ns p) :
    CompilesLabels ⟨labels, body⟩ (.directive "default" args cs :: ns) p
  | blank {body n ns p} (hn : n.isBlankText = true) (h : CompilesLabels ⟨[], body⟩ ns p) :
    CompilesLabels ⟨[], body⟩ (n :: ns) p
  | node {labels body n is ns p} (hlabels : labels ≠ []) (hnode : node true n = .ok is)
    (hn : Compiles true n is) (h : CompilesLabels ⟨labels, body ++ is⟩ ns p) :
    CompilesLabels ⟨labels, body⟩ (n :: ns) p

/-- How the children of a component tag add to its slots. -/
inductive CompilesSlots : SlotParts → List Node → SlotParts → Prop
  | nil {p} : CompilesSlots p [] p
  | named {named default attrs cs body ns p} (hb : CompilesAll false cs body)
    (h : CompilesSlots ⟨named ++ [(TagText.slotName attrs, body)], default⟩ ns p) :
    CompilesSlots ⟨named, default⟩ (.component "x-slot" attrs cs :: ns) p
  | node {named default n is ns p} (hnode : node false n = .ok is) (hn : Compiles false n is)
    (h : CompilesSlots ⟨named, some (default.getD [] ++ is)⟩ ns p) :
    CompilesSlots ⟨named, default⟩ (n :: ns) p

end

/-- The children of a template that extends a layout, as far as they are kept. -/
inductive CompilesLayout : LayoutParts → List Node → LayoutParts → Prop
  | nil {p} : CompilesLayout p [] p
  | sectionValue {kept sections args cs first value rest e ns p}
    (ha : arguments "section" args = .ok (first, value :: rest))
    (he : expression "@section" value = .ok e)
    (h : CompilesLayout ⟨kept, sections ++ [(Arguments.unquote first, [.echo e])]⟩ ns p) :
    CompilesLayout ⟨kept, sections⟩ (.directive "section" args cs :: ns) p
  | sectionBlock {kept sections args cs first body ns p}
    (ha : arguments "section" args = .ok (first, [])) (hb : CompilesAll false cs body)
    (h : CompilesLayout ⟨kept, sections ++ [(Arguments.unquote first, body)]⟩ ns p) :
    CompilesLayout ⟨kept, sections⟩ (.directive "section" args cs :: ns) p
  | kept {kept sections n is ns p} (hn : Compiles false n is)
    (h : CompilesLayout ⟨kept ++ is, sections⟩ ns p) : CompilesLayout ⟨kept, sections⟩ (n :: ns) p
  | dropped {n ns p q} (h : CompilesLayout p ns q) : CompilesLayout p (n :: ns) q

/-- A simple directive is an injection, or it adds text. -/
lemma simple_cases {i : Instruction} (h : simple name args = .ok i) :
    (name = "inject" ∧ ∃ binder service, i = .inject binder service) ∨
      name ≠ "inject" ∧ i.isFlat = true := by
  unfold simple at h
  split at h
  case h_1 | h_2 | h_3 | h_4 | h_7 =>
    obtain ⟨e, -, h⟩ := ok_of_bind h
    cases h
    exact .inr ⟨by decide, rfl⟩
  case h_5 =>
    unfold model at h
    obtain ⟨a, -, h⟩ := ok_of_bind h
    dsimp only at h
    split at h
    · cases h
    · obtain ⟨e, -, h⟩ := ok_of_bind h
      cases h
      exact .inr ⟨by decide, rfl⟩
  case h_6 =>
    obtain ⟨a, -, h⟩ := ok_of_bind h
    obtain ⟨e, -, h⟩ := ok_of_bind h
    cases h
    exact .inr ⟨by decide, rfl⟩
  case h_8 =>
    obtain ⟨a, -, h⟩ := ok_of_bind h
    obtain ⟨e, -, h⟩ := ok_of_bind h
    obtain ⟨d, -, h⟩ := ok_of_bind h
    cases h
    exact .inr ⟨by decide, rfl⟩
  case h_9 =>
    unfold inject at h
    obtain ⟨a, -, h⟩ := ok_of_bind h
    dsimp only at h
    split at h
    · cases h
    · split at h
      · cases h
      · cases h
        exact .inl ⟨rfl, _, _, rfl⟩
  case h_10 hinject =>
    -- any other directive is the flag of an attribute, or stays the text that it was
    refine .inr ⟨hinject, ?_⟩
    split at h
    · obtain ⟨e, -, h⟩ := ok_of_bind h
      cases h
      rfl
    · cases h
      rfl

lemma node_of_isSimple (h : IsSimple name) (b : Bool) (args : Option String)
    (ns : List Node) : node b (.directive name args ns) = (do
      let i ← simple name args
      return [i]) := by
  obtain ⟨hcond, hhome, hbody⟩ := h
  simp only [bodyNames, mem_cons, not_mem_nil, or_false, not_or] at hbody
  unfold node
  rw [hcond, hhome]
  dsimp only
  split <;> simp_all

/-! ## The compiler follows the rules -/

mutual

lemma compiles_of_node : (n : Node) → node b n = .ok is → Compiles b n is
  | .root ns, h => .root (compilesAll_of_nodes ns h)
  | .text s, h => by
    cases h
    exact .text
  | .echo source, h => by
    rw [node] at h
    obtain ⟨e, he, h⟩ := ok_of_bind h
    cases h
    exact .echo he
  | .component tag attrs ns, h => by
    rw [node] at h
    obtain ⟨values, hv, h⟩ := ok_of_bind h
    obtain ⟨p, hp, h⟩ := ok_of_bind h
    cases h
    exact .tag hv hp (compilesSlots_of_slotBodies ns hp)
  | .directive name args ns, h => by
    unfold node at h
    split at h
    · rename_i test ht
      obtain ⟨e, he, h⟩ := ok_of_bind h
      obtain ⟨p, hp, h⟩ := ok_of_bind h
      cases h
      exact .conditional ht he (compilesBranches_of_branchBodies ns hp)
    · cases h
    · rename_i hcond hhome
      split at h
      · -- a break needs something to leave
        split at h
        · cases h
          rename_i hb
          subst hb
          exact .leave
        · cases h
      · obtain ⟨subject, hs, h⟩ := ok_of_bind h
        obtain ⟨p, hp, h⟩ := ok_of_bind h
        cases h
        exact .switch hs (compilesLabels_of_switchBody ns hp)
      · obtain ⟨⟨source, l⟩, hl, h⟩ := ok_of_bind h
        obtain ⟨is, his, h⟩ := ok_of_bind h
        cases h
        exact .foreach hl (compilesAll_of_nodes ns his)
      · obtain ⟨⟨first, rest⟩, ha, h⟩ := ok_of_bind h
        dsimp only at h
        split at h
        · obtain ⟨e, he, h⟩ := ok_of_bind h
          cases h
          exact .sectionValue ha he
        · exact .sectionBlock ha (compilesAll_of_nodes ns h)
      · obtain ⟨⟨first, rest⟩, ha, h⟩ := ok_of_bind h
        obtain ⟨is, his, h⟩ := ok_of_bind h
        cases h
        exact .push ha (compilesAll_of_nodes ns his)
      · obtain ⟨⟨first, rest⟩, ha, h⟩ := ok_of_bind h
        obtain ⟨is, his, h⟩ := ok_of_bind h
        obtain ⟨view, hv, h⟩ := ok_of_bind h
        obtain ⟨data, hd, h⟩ := ok_of_bind h
        cases h
        exact .component ha his (compilesAll_of_nodes ns his) hv hd
      · obtain ⟨i, hi, h⟩ := ok_of_bind h
        cases h
        refine .simple ⟨hcond, hhome, ?_⟩ hi
        simp_all [bodyNames]

lemma compilesAll_of_nodes : (ns : List Node) → nodes b ns = .ok is → CompilesAll b ns is
  | [], h => by
    cases h
    exact .nil
  | n :: ns, h => by
    rw [nodes] at h
    obtain ⟨is, his, h⟩ := ok_of_bind h
    obtain ⟨more, hmore, h⟩ := ok_of_bind h
    cases h
    exact .cons his (compiles_of_node n his) (compilesAll_of_nodes ns hmore)

lemma compilesBranches_of_branchBodies :
    (ns : List Node) → branchBodies b p ns = .ok q → CompilesBranches b p ns q
  | [], h => by
    cases h
    exact .nil
  | n :: ns, h => by
    obtain ⟨bs, c, body⟩ := p
    unfold branchBodies at h
    split at h
    · cases ‹n :: ns = []›
    · rename_i heq
      cases heq
      -- behind `@else` there is no condition left to divide, and a divider is refused
      cases c with
      | none => cases h
      | some c => exact .otherwise (compilesBranches_of_branchBodies ns h)
    · rename_i heq
      cases heq
      cases c with
      | none => cases h
      | some c =>
        obtain ⟨e, he, h⟩ := ok_of_bind h
        exact .elseif he (compilesBranches_of_branchBodies ns h)
    · rename_i heq
      cases heq
      obtain ⟨is, his, h⟩ := ok_of_bind h
      exact .node his (compiles_of_node n his) (compilesBranches_of_branchBodies ns h)

lemma compilesLabels_of_switchBody {p q : SwitchParts} :
    (ns : List Node) → switchBody p ns = .ok q → CompilesLabels p ns q
  | [], h => by
    cases h
    exact .nil
  | n :: ns, h => by
    obtain ⟨labels, body⟩ := p
    unfold switchBody at h
    split at h
    · cases ‹n :: ns = []›
    · rename_i heq
      cases heq
      obtain ⟨test, ht, h⟩ := ok_of_bind h
      exact .case ht (compilesLabels_of_switchBody ns h)
    · rename_i heq
      cases heq
      split at h
      · cases h
      · rename_i hone
        exact .default (Bool.eq_false_iff.mpr hone) (compilesLabels_of_switchBody ns h)
    · rename_i heq
      cases heq
      -- in front of the first label only blanks are let through
      split at h
      · rename_i hempty
        obtain rfl : labels = [] := isEmpty_iff.mp hempty
        split at h
        · rename_i hblank
          exact .blank hblank (compilesLabels_of_switchBody ns h)
        · cases h
      · rename_i hlabels
        obtain ⟨is, his, h⟩ := ok_of_bind h
        exact .node (by simpa using hlabels) his (compiles_of_node n his)
          (compilesLabels_of_switchBody ns h)

lemma compilesSlots_of_slotBodies {p q : SlotParts} :
    (ns : List Node) → slotBodies p ns = .ok q → CompilesSlots p ns q
  | [], h => by
    cases h
    exact .nil
  | n :: ns, h => by
    obtain ⟨named, default⟩ := p
    -- only tags can name a slot; every other node joins the default one
    cases n
    case component tag attrs cs =>
      unfold slotBodies at h
      split at h
      · cases ‹Node.component tag attrs cs :: ns = []›
      · rename_i heq
        cases heq
        obtain ⟨body, hb, h⟩ := ok_of_bind h
        exact .named (compilesAll_of_nodes cs hb) (compilesSlots_of_slotBodies ns h)
      · rename_i heq
        cases heq
        obtain ⟨is, his, h⟩ := ok_of_bind h
        exact .node his (compiles_of_node _ his) (compilesSlots_of_slotBodies ns h)
    all_goals
      obtain ⟨is, his, h⟩ := ok_of_bind h
      exact .node his (compiles_of_node _ his) (compilesSlots_of_slotBodies ns h)

end

lemma compilesLayout_of_layoutParts (h : layoutParts p ns = .ok q) : CompilesLayout p ns q := by
  induction ns generalizing p with
  | nil =>
    cases h
    exact .nil
  | cons n ns ih =>
    obtain ⟨kept, sections⟩ := p
    unfold layoutParts at h
    split at h
    · cases ‹n :: ns = []›
    · rename_i heq
      cases heq
      obtain ⟨⟨first, more⟩, ha, h⟩ := ok_of_bind h
      cases more with
      | nil =>
        obtain ⟨body, hb, h⟩ := ok_of_bind h
        exact .sectionBlock ha (compilesAll_of_nodes _ hb) (ih h)
      | cons value rest =>
        obtain ⟨e, he, h⟩ := ok_of_bind h
        exact .sectionValue ha he (ih h)
    · rename_i heq
      cases heq
      split at h
      · obtain ⟨is, his, h⟩ := ok_of_bind h
        exact .kept (compiles_of_node _ his) (ih h)
      · exact .dropped (ih h)
    · rename_i heq
      cases heq
      exact .dropped (ih h)

end Compile

lemma Routine.ofNode_of_extends?_eq_none (h : extends? root.children = none) : ofNode root = (do
      let body ← nodes false root.children
      return ⟨body⟩) := by
  rw [ofNode, h]

lemma Routine.compiles_of_ofNode (h : ofNode root = .ok r) :
    CompilesAll false root.children r.body ∨ ∃ layout p, CompilesLayout {} root.children p ∧
        r.body = p.kept ++ [.extendLayout layout p.sections] := by
  unfold ofNode at h
  split at h
  · obtain ⟨⟨first, rest⟩, -, h⟩ := ok_of_bind h
    obtain ⟨p, hp, h⟩ := ok_of_bind h
    cases h
    exact .inr ⟨_, p, compilesLayout_of_layoutParts hp, rfl⟩
  · obtain ⟨is, his, h⟩ := ok_of_bind h
    cases h
    exact .inl (compilesAll_of_nodes _ his)

/-! ## What bodies hand on -/

namespace Compile

/-- A property that instructions get from the bodies they hold. The flag says whether a break would
have something to leave. -/
structure Hereditary (P : Bool → List Instruction → Prop) : Prop where
  nil : ∀ {b}, P b []
  append : ∀ {b is js}, P b is → P b js → P b (is ++ js)
  flat : ∀ {b i}, i.isFlat = true → P b [i]
  inject : ∀ {b} binder service, P b [.inject binder service]
  leave : P true [.leave]
  choose : ∀ {b branches otherwise}, (∀ e ∈ branches, P b e.2) → P b otherwise →
    P b [.choose branches otherwise]
  switch : ∀ {b subject labels body}, (∀ l ∈ labels, l.2 ≤ body.length) → P true body →
    P b [.switch subject labels body]
  foreach : ∀ {b source key item body}, P true body → P b [.foreach source key item body]
  push : ∀ {b stack body}, P false body → P b [.push stack body]
  component : ∀ {b name attrs slots}, (∀ e ∈ slots, P false e.2) →
    P b [.component name attrs slots]
  namedComponent : ∀ {b view data body}, (∀ is ∈ body, P false is) →
    P b [.namedComponent view data body]
  extendLayout : ∀ {layout sections}, (∀ e ∈ sections, P false e.2) →
    P false [.extendLayout layout sections]

namespace Hereditary

variable {P : Bool → List Instruction → Prop}

lemma concat {bodies : List (κ × List Instruction)} (h : ∀ e ∈ bodies, P b e.2) (k : κ)
    (his : P b is) : ∀ e ∈ bodies ++ [(k, is)], P b e.2 :=
  forall_mem_append.mpr ⟨h, forall_mem_singleton.mpr his⟩

lemma finishSlots {p : SlotParts} (hnamed : ∀ e ∈ p.named, P false e.2)
    (hdefault : ∀ body ∈ p.default, P false body) : ∀ e ∈ p.finish, P false e.2 := by
  obtain ⟨named, default⟩ := p
  cases default with
  | none => simpa [SlotParts.finish] using hnamed
  | some body => exact concat hnamed "default" (hdefault body rfl)

variable (hP : Hereditary P)

include hP

lemma finish {p : BranchParts} (hbranches : ∀ e ∈ p.branches, P b e.2)
    (hbody : P b p.body) : P b [p.finish] := by
  obtain ⟨branches, c, body⟩ := p
  cases c with
  | none => exact hP.choose hbranches hbody
  | some c => exact hP.choose (concat hbranches c hbody) hP.nil

mutual

lemma of_compiles {n : Node} : Compiles b n is → P b is
  | .root h => of_compilesAll h
  | .text | .echo _ | .sectionValue _ _ => hP.flat rfl
  | .tag _ _ h =>
    have ⟨hnamed, hdefault⟩ := of_compilesSlots h nofun nofun
    hP.component (finishSlots hnamed hdefault)
  | .conditional _ _ h =>
    have ⟨hbranches, hbody⟩ := of_compilesBranches h nofun hP.nil
    hP.finish hbranches hbody
  | .leave => hP.leave
  | .switch _ h =>
    have ⟨hlabels, hbody⟩ := of_compilesLabels h nofun hP.nil
    hP.switch hlabels hbody
  | .foreach _ h => hP.foreach (of_compilesAll h)
  | .sectionBlock _ h => of_compilesAll h
  | .push _ h => hP.push (of_compilesAll h)
  | .component _ _ h _ _ => by
    have hbody := of_compilesAll h
    refine hP.namedComponent fun is his => ?_
    split at his
    · cases his
    · exact Option.some.inj his ▸ hbody
  | .simple _ hi => by
    obtain ⟨-, binder, service, rfl⟩ | ⟨-, hflat⟩ := simple_cases hi
    · exact hP.inject binder service
    · exact hP.flat hflat

lemma of_compilesAll : CompilesAll b ns is → P b is
  | .nil => hP.nil
  | .cons _ hn h => hP.append (of_compiles hn) (of_compilesAll h)

lemma of_compilesBranches {ns : List Node} :
    CompilesBranches b p ns q → (∀ e ∈ p.branches, P b e.2) → P b p.body →
      (∀ e ∈ q.branches, P b e.2) ∧ P b q.body
  | .nil, hbranches, hbody => ⟨hbranches, hbody⟩
  | .otherwise h, hbranches, hbody | .elseif _ h, hbranches, hbody =>
    of_compilesBranches h (concat hbranches _ hbody) hP.nil
  | .node _ hn h, hbranches, hbody =>
    of_compilesBranches h hbranches (hP.append hbody (of_compiles hn))

lemma of_compilesLabels :
    CompilesLabels p ns q → (∀ l ∈ p.labels, l.2 ≤ p.body.length) → P true p.body →
      (∀ l ∈ q.labels, l.2 ≤ q.body.length) ∧ P true q.body
  | .nil, hlabels, hbody => ⟨hlabels, hbody⟩
  | .case _ h, hlabels, hbody | .default _ h, hlabels, hbody =>
    of_compilesLabels h
      (forall_mem_append.mpr ⟨hlabels, forall_mem_singleton.mpr (Nat.le_refl _)⟩) hbody
  | .blank _ h, hlabels, hbody => of_compilesLabels h hlabels hbody
  | .node _ _ hn h, hlabels, hbody =>
    of_compilesLabels h (fun l hl => Nat.le_trans (hlabels l hl) (by simp))
      (hP.append hbody (of_compiles hn))

lemma of_compilesSlots :
    CompilesSlots p ns q → (∀ e ∈ p.named, P false e.2) → (∀ body ∈ p.default, P false body) →
      (∀ e ∈ q.named, P false e.2) ∧ ∀ body ∈ q.default, P false body
  | .nil, hnamed, hdefault => ⟨hnamed, hdefault⟩
  | .named hb h, hnamed, hdefault =>
    of_compilesSlots h (concat hnamed _ (of_compilesAll hb)) hdefault
  | @CompilesSlots.node _ default _ is _ _ _ hn h, hnamed, hdefault => by
    have hbefore : P false (default.getD []) := by
      cases default with
      | none => exact hP.nil
      | some body => exact hdefault body rfl
    refine of_compilesSlots h hnamed fun body hbody => ?_
    obtain rfl : default.getD [] ++ is = body := Option.some.inj hbody
    exact hP.append hbefore (of_compiles hn)

end

lemma of_compilesLayout (h : CompilesLayout p ns q) (hkept : P false p.kept)
    (hsections : ∀ e ∈ p.sections, P false e.2) :
    P false q.kept ∧ ∀ e ∈ q.sections, P false e.2 := by
  induction h with
  | nil => exact ⟨hkept, hsections⟩
  | sectionValue ha he h ih => exact ih hkept (concat hsections _ (hP.flat rfl))
  | sectionBlock ha hb h ih => exact ih hkept (concat hsections _ (hP.of_compilesAll hb))
  | kept hn h ih => exact ih (hP.append hkept (hP.of_compiles hn)) hsections
  | dropped h ih => exact ih hkept hsections

lemma of_ofNode (h : ofNode root = .ok r) : P false r.body := by
  obtain hall | ⟨layout, p, hp, hbody⟩ := compiles_of_ofNode h
  · exact hP.of_compilesAll hall
  · obtain ⟨hkept, hsections⟩ := hP.of_compilesLayout hp hP.nil nofun
    rw [hbody]
    exact hP.append hkept (hP.extendLayout hsections)

end Hereditary

end Compile

end LiveMarkup
