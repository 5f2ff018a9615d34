import LiveMarkup.Proofs.Confinement
import LiveMarkup.Proofs.Shape

/-!
# What becomes of nodes

A template that compiles, and does not extend a layout, is compiled as a whole: each of its nodes,
however deep inside of blocks, slots and branches, has its instructions somewhere in the routine.
Dividers, labels and slot tags have no instructions but arrange those of other nodes, and blanks in
front of the first label of a switch are left out; nothing else is.
-/

namespace LiveMarkup

open List Compile Meaning Node

variable {n x : Node} {i : Instruction}

namespace Compile

def isSlot : Node → Bool
  | .component tag _ _ => tag == "x-slot"
  | _ => false

lemma branchBodies_cons (h : divides n = false) (b : Bool) (p : BranchParts)
    (ns : List Node) : branchBodies b p (n :: ns) = (do
      let is ← node b n
      branchBodies b { p with body := p.body ++ is } ns) := by
  conv_lhs => unfold branchBodies
  split <;> simp_all [divides]

lemma switchBody_cons (h : isLabel n = false) (p : SwitchParts)
    (ns : List Node) : switchBody p (n :: ns) =
      if p.labels.isEmpty then
        if n.isBlankText then switchBody p ns else throw .contentBeforeCase
      else (do
        let is ← node true n
        switchBody { p with body := p.body ++ is } ns) := by
  conv_lhs => unfold switchBody
  split <;> simp_all [isLabel]

lemma of_isBlankText (h : n.isBlankText = true) : isLabel n = false ∧ n.children = [] := by
  cases n with
  | text s => exact ⟨rfl, rfl⟩
  | root | echo | directive | component => cases h

end Compile

/-! ## Nothing is dropped -/

/-- An instruction stands in a body, or in a body inside of it. -/
inductive Instruction.Within (i : Instruction) : List Instruction → Prop
  | here {body} (h : i ∈ body) : Within i body
  | branch {body branches otherwise c inner} (hb : .choose branches otherwise ∈ body)
    (hc : (c, inner) ∈ branches) (h : Within i inner) : Within i body
  | otherwise {body branches otherwise} (hb : .choose branches otherwise ∈ body)
    (h : Within i otherwise) : Within i body
  | switch {body subject labels inner} (hb : .switch subject labels inner ∈ body)
    (h : Within i inner) : Within i body
  | foreach {body source key item inner} (hb : .foreach source key item inner ∈ body)
    (h : Within i inner) : Within i body
  | push {body stack inner} (hb : .push stack inner ∈ body) (h : Within i inner) : Within i body
  | slot {body name attrs slots slot inner} (hb : .component name attrs slots ∈ body)
    (hs : (slot, inner) ∈ slots) (h : Within i inner) : Within i body
  | component {body name data inner} (hb : .namedComponent name data (some inner) ∈ body)
    (h : Within i inner) : Within i body
  | layout {body layout sections name inner} (hb : .extendLayout layout sections ∈ body)
    (hs : (name, inner) ∈ sections) (h : Within i inner) : Within i body

lemma Instruction.Within.mono (h : i.Within is) (hsub : is ⊆ js) : i.Within js := by
  cases h with
  | here hi => exact .here (hsub hi)
  | branch hb hc h => exact .branch (hsub hb) hc h
  | otherwise hb h => exact .otherwise (hsub hb) h
  | switch hb h => exact .switch (hsub hb) h
  | foreach hb h => exact .foreach (hsub hb) h
  | push hb h => exact .push (hsub hb) h
  | slot hb hs h => exact .slot (hsub hb) hs h
  | component hb h => exact .component (hsub hb) h
  | layout hb hs h => exact .layout (hsub hb) hs h

namespace Compile

open Node (Inside)

/-- Nodes that have instructions of their own. The others are dividers, labels and slots, which
arrange the instructions of the nodes around them, and blanks, which may stand before a label. -/
def standsAlone (n : Node) : Bool :=
  !Meaning.divides n && !Meaning.isLabel n && !isSlot n && !n.isBlankText

/-- A node compiles, and all of its instructions have this property. -/
def Kept (P : Instruction → Prop) (n : Node) : Prop :=
  ∃ b is, node b n = .ok is ∧ ∀ i ∈ is, P i

variable {P : Instruction → Prop} {ns : List Node}

lemma Kept.mono (h : Kept P n) (hPQ : ∀ i, P i → Q i) : Kept Q n := by
  obtain ⟨b, is, hnode, his⟩ := h
  exact ⟨b, is, hnode, fun i hi => hPQ i (his i hi)⟩

def BranchParts.Holds (p : BranchParts) (i : Instruction) : Prop :=
  i.Within p.body ∨ ∃ c body, (c, body) ∈ p.branches ∧ i.Within body

lemma BranchParts.Holds.finish {p : BranchParts} (h : p.Holds i) : i.Within [p.finish] := by
  obtain ⟨bs, c, body⟩ := p
  cases c with
  | none =>
    have hmem : .choose bs body ∈ [BranchParts.finish ⟨bs, none, body⟩] := mem_singleton.mpr rfl
    rcases h with hbody | ⟨c', inner, hmem', hinner⟩
    · exact .otherwise hmem hbody
    · exact .branch hmem hmem' hinner
  | some c =>
    have hmem : .choose (bs ++ [(c, body)]) [] ∈ [BranchParts.finish ⟨bs, some c, body⟩] :=
      mem_singleton.mpr rfl
    rcases h with hbody | ⟨c', inner, hmem', hinner⟩
    · exact .branch hmem (mem_append_right _ (mem_singleton.mpr rfl)) hbody
    · exact .branch hmem (mem_append_left _ hmem') hinner

lemma BranchParts.Holds.next {bs : List (Condition × List Instruction)} {c : Option Condition}
    {body : List Instruction} (h : BranchParts.Holds ⟨bs, c, body⟩ i) (c' : Condition)
    (d : Option Condition) : BranchParts.Holds ⟨bs ++ [(c', body)], d, []⟩ i := by
  rcases h with hbody | ⟨c, inner, hmem, hinner⟩
  · exact .inr ⟨c', body, by simp, hbody⟩
  · exact .inr ⟨c, inner, by simp [hmem], hinner⟩

def SlotParts.Holds (p : SlotParts) (i : Instruction) : Prop :=
  (∃ name body, (name, body) ∈ p.named ∧ i.Within body) ∨ ∃ body ∈ p.default, i.Within body

lemma SlotParts.Holds.finish {p : SlotParts} (h : p.Holds i) :
    ∃ name body, (name, body) ∈ p.finish ∧ i.Within body := by
  rcases h with ⟨name, body, hmem, hbody⟩ | ⟨body, hdefault, hbody⟩
  · exact ⟨name, body, mem_append_left _ hmem, hbody⟩
  · obtain ⟨named, default⟩ := p
    cases hdefault
    exact ⟨"default", body, by simp [SlotParts.finish], hbody⟩

lemma not_inside_of_homeOf? (hx : standsAlone x = true) (h : (directive name args ns).Shaped)
    (hhome : homeOf? name = some home) : ¬ Inside x (.directive name args ns) := by
  intro hin
  obtain rfl := hin.eq_of_children (eq_nil_of_ignoresChildren h (.misplaced hhome))
  unfold homeOf? at hhome
  split at hhome <;> simp_all [standsAlone, divides, isLabel]

lemma not_inside_of_isBlankText (hx : standsAlone x = true)
    (hn : n.isBlankText = true) : ¬ Inside x n := by
  intro hin
  obtain rfl := hin.eq_of_children (of_isBlankText hn).2
  simp [standsAlone, hn] at hx

lemma mem_of_not_inside (hn : ¬ Inside x n) (hk : k ∈ n :: ns) (hin : Inside x k) : k ∈ ns := by
  rcases mem_cons.mp hk with rfl | hk
  · exact absurd hin hn
  · exact hk

lemma BranchParts.Holds.of_compiles {p q : BranchParts} {ns : List Node} :
    CompilesBranches b p ns q → p.Holds i → q.Holds i
  | .nil, h => h
  | .otherwise hrest, h | .elseif _ hrest, h => Holds.of_compiles hrest (h.next _ _)
  | .node _ _ hrest, h => by
    apply Holds.of_compiles hrest
    rcases h with hbody | hbranch
    · exact .inl (hbody.mono (subset_append_left _ _))
    · exact .inr hbranch

lemma Within.of_compilesLabels {ns : List Node} :
    CompilesLabels p ns q → i.Within p.body → i.Within q.body
  | .nil, h => h
  | .case _ hrest, h | .default _ hrest, h | .blank _ hrest, h => Within.of_compilesLabels hrest h
  | .node _ _ _ hrest, h => Within.of_compilesLabels hrest (h.mono (subset_append_left _ _))

lemma SlotParts.Holds.of_compiles {ns : List Node} : CompilesSlots p ns q → p.Holds i → q.Holds i
  | .nil, h => h
  | .named _ hrest, h => by
    apply Holds.of_compiles hrest
    rcases h with ⟨name, body, hmem, hbody⟩ | hdefault
    · exact .inl ⟨name, body, mem_append_left _ hmem, hbody⟩
    · exact .inr hdefault
  | .node _ _ hrest, h => by
    apply Holds.of_compiles hrest
    rcases h with hnamed | ⟨body, hmem, hbody⟩
    · exact .inl hnamed
    · refine .inr ⟨_, rfl, hbody.mono ?_⟩
      rw [Option.mem_def.mp hmem]
      exact subset_append_left _ _

variable {x : Node}

lemma kept_of_cons (hnode : node b n = .ok is)
    (hchildren : ∀ {k}, k ∈ n.children → Inside x k → Kept (·.Within is) x)
    (hfirst : ∀ i, i.Within is → P i) (hrest : k ∈ ns → Inside x k → Kept P x) (hk : k ∈ n :: ns)
    (hin : Inside x k) : Kept P x := by
  rcases mem_cons.mp hk with heq | hk
  · rw [heq] at hin
    cases hin with
    | here => exact ⟨b, is, hnode, fun i hi => hfirst i (.here hi)⟩
    | deeper hk hin => exact (hchildren hk hin).mono hfirst
  · exact hrest hk hin

mutual

/-- A node inside a child of one that compiles is compiled with it. -/
lemma kept_of_compiles (hx : standsAlone x = true) {n k : Node} {is : List Instruction} :
    Compiles b n is → n.Shaped → k ∈ n.children → Inside x k → Kept (·.Within is) x
  | .root _, hn, _, _ => nomatch hn
  | .text, _, hk, _ => nomatch hk
  | .echo _, _, hk, _ => nomatch hk
  | .tag _ _ h, hn, hk, hin => by
    refine (kept_of_compilesSlots hx h hn.siblings_children.shaped hk hin).mono fun i hi => ?_
    obtain ⟨name, body, hmem, hbody⟩ := hi.finish
    exact .slot (mem_singleton.mpr rfl) hmem hbody
  | .conditional _ _ h, hn, hk, hin => by
    refine (kept_of_compilesBranches hx h hn.siblings_children.shaped hk hin).mono fun i hi => ?_
    exact hi.finish
  | .switch _ h, hn, hk, hin => by
    refine (kept_of_compilesLabels hx h hn.siblings_children.shaped hk hin).mono fun i hi => ?_
    exact .switch (mem_singleton.mpr rfl) hi
  | .foreach _ h, hn, hk, hin => by
    refine (kept_of_compilesAll hx h hn.siblings_children.shaped hk hin).mono fun i hi => ?_
    exact .foreach (mem_singleton.mpr rfl) hi
  | .sectionBlock _ h, hn, hk, hin => kept_of_compilesAll hx h hn.siblings_children.shaped hk hin
  | .push _ h, hn, hk, hin => by
    refine (kept_of_compilesAll hx h hn.siblings_children.shaped hk hin).mono fun i hi => ?_
    exact .push (mem_singleton.mpr rfl) hi
  | .component _ _ h _ _, hn, hk, hin => by
    refine (kept_of_compilesAll hx h hn.siblings_children.shaped hk hin).mono fun i hi => ?_
    rw [if_neg (by simpa [children] using ne_nil_of_mem hk)]
    exact .component (mem_singleton.mpr rfl) hi
  -- the other rules do not look at children, and there are none
  | .leave, hn, hk, _ => by
    obtain rfl := eq_nil_of_ignoresChildren hn .leave
    cases hk
  | .sectionValue ha _, hn, hk, _ => by
    obtain rfl := eq_nil_of_ignoresChildren hn (.inline ha)
    cases hk
  | .simple hname _, hn, hk, _ => by
    obtain rfl := eq_nil_of_ignoresChildren hn (.simple hname)
    cases hk

lemma kept_of_compilesAll (hx : standsAlone x = true) {k : Node} {ns : List Node} :
    CompilesAll b ns is → (∀ n ∈ ns, n.Shaped) → k ∈ ns → Inside x k → Kept (·.Within is) x
  | .nil, _, hk, _ => nomatch hk
  | .cons hnode hn h, hns, hk, hin => by
    obtain ⟨hshaped, hns⟩ := forall_mem_cons.mp hns
    refine kept_of_cons hnode (kept_of_compiles hx hn hshaped) (fun i hi => ?_) (fun hk hin => ?_)
      hk hin
    · exact hi.mono (subset_append_left _ _)
    · refine (kept_of_compilesAll hx h hns hk hin).mono fun i hi => ?_
      exact hi.mono (subset_append_right _ _)

lemma kept_of_compilesBranches (hx : standsAlone x = true) {k : Node} {ns : List Node} :
    CompilesBranches b p ns q → (∀ n ∈ ns, n.Shaped) → k ∈ ns → Inside x k → Kept q.Holds x
  | .nil, _, hk, _ => nomatch hk
  | .otherwise h, hns, hk, hin | .elseif _ h, hns, hk, hin => by
    obtain ⟨hshaped, hns⟩ := forall_mem_cons.mp hns
    have hk := mem_of_not_inside (not_inside_of_homeOf? hx hshaped rfl) hk hin
    exact kept_of_compilesBranches hx h hns hk hin
  | .node hnode hn h, hns, hk, hin => by
    obtain ⟨hshaped, hns⟩ := forall_mem_cons.mp hns
    refine kept_of_cons hnode (kept_of_compiles hx hn hshaped) (fun i hi => ?_)
      (kept_of_compilesBranches hx h hns) hk hin
    exact BranchParts.Holds.of_compiles h (.inl (hi.mono (subset_append_right _ _)))

lemma kept_of_compilesLabels (hx : standsAlone x = true) {p q : SwitchParts} {ns : List Node} :
    CompilesLabels p ns q → (∀ n ∈ ns, n.Shaped) → k ∈ ns → Inside x k → Kept (·.Within q.body) x
  | .nil, _, hk, _ => nomatch hk
  | .case _ h, hns, hk, hin | .default _ h, hns, hk, hin => by
    obtain ⟨hshaped, hns⟩ := forall_mem_cons.mp hns
    have hk := mem_of_not_inside (not_inside_of_homeOf? hx hshaped rfl) hk hin
    exact kept_of_compilesLabels hx h hns hk hin
  | .blank hblank h, hns, hk, hin => by
    have hk := mem_of_not_inside (not_inside_of_isBlankText hx hblank) hk hin
    exact kept_of_compilesLabels hx h (forall_mem_cons.mp hns).2 hk hin
  | .node _ hnode hn h, hns, hk, hin => by
    obtain ⟨hshaped, hns⟩ := forall_mem_cons.mp hns
    refine kept_of_cons hnode (kept_of_compiles hx hn hshaped) (fun i hi => ?_)
      (kept_of_compilesLabels hx h hns) hk hin
    exact Within.of_compilesLabels h (hi.mono (subset_append_right _ _))

lemma kept_of_compilesSlots (hx : standsAlone x = true) {p q : SlotParts} {ns : List Node} :
    CompilesSlots p ns q → (∀ n ∈ ns, n.Shaped) → k ∈ ns → Inside x k → Kept q.Holds x
  | .nil, _, hk, _ => nomatch hk
  | .named hb h, hns, hk, hin => by
    obtain ⟨hshaped, hns⟩ := forall_mem_cons.mp hns
    rcases mem_cons.mp hk with heq | hk
    · rw [heq] at hin
      cases hin with
      | here => simp [standsAlone, isSlot] at hx
      | deeper hk hin =>
        refine (kept_of_compilesAll hx hb hshaped.siblings_children.shaped hk hin).mono fun i hi => ?_
        exact SlotParts.Holds.of_compiles h
          (.inl ⟨_, _, mem_append_right _ (mem_singleton.mpr rfl), hi⟩)
    · exact kept_of_compilesSlots hx h hns hk hin
  | .node hnode hn h, hns, hk, hin => by
    obtain ⟨hshaped, hns⟩ := forall_mem_cons.mp hns
    refine kept_of_cons hnode (kept_of_compiles hx hn hshaped) (fun i hi => ?_)
      (kept_of_compilesSlots hx h hns) hk hin
    exact SlotParts.Holds.of_compiles h (.inr ⟨_, rfl, hi.mono (subset_append_right _ _)⟩)

end

end Compile

namespace Routine

/-- Every source has a well-formed tree, and without a layout nothing of it is dropped. The rules
that do not look at children, whose result is the same for all of them, meet directives without any.
In a template that compiles, every node that has instructions has them in the routine. -/
theorem compile_drops_no_body (source : String) :
    (Node.parse source).WellFormed ∧
      (Compile.extends? (Node.parse source).children = none →
        (∀ {path before name args ns},
          Node.Occurs [] (Node.parse source) path before (.directive name args ns) →
          Compile.IgnoresChildren name args →
            ns = [] ∧ ∀ b ms, Compile.node b (.directive name args ms) =
              Compile.node b (.directive name args [])) ∧
        ∀ {r}, Routine.compile source = .ok r →
          ∀ {path before n}, Node.Occurs [] (Node.parse source) path before n →
            Compile.standsAlone n = true →
              ∃ b is, Compile.node b n = .ok is ∧ ∀ i ∈ is, i.Within r.body) := by
  have hsiblings := siblings_parse source
  refine ⟨wellFormed_parse source, fun hextends => ⟨?_, ?_⟩⟩
  · intro path before name args ns hoccurs hignores
    exact ⟨eq_nil_of_ignoresChildren (hoccurs.shaped hsiblings).1 hignores,
      fun b ms => hignores.node_eq b ms⟩
  · intro r hcompile path before n hoccurs halone
    obtain ⟨k, hk, hin⟩ := hoccurs.inside
    rw [compile, ofNode_of_extends?_eq_none hextends] at hcompile
    obtain ⟨body, hbody, hr⟩ := ok_of_bind hcompile
    cases hr
    have hall := compilesAll_of_nodes _ hbody
    exact kept_of_compilesAll halone hall hsiblings.shaped hk hin

end Routine

/-- A section and a tag that are never closed, an end without a beginning, a section with a value,
and arguments without an end. -/
def tatters : String :=
  "@section(pic)x@endif<x-c>y@section(pic, pic)@note(z"

lemma parse_tatters : parse tatters = .root [.directive "section" (some "pic")
      [.text "x@endif", .component "x-c" "" [.text "y", .directive "section" (some "pic, pic") [],
          .directive "note" (some "z") []]]] := by
  have htokens : Token.tokenize tatters = [.directive "section", .parenStart, .text "pic",
    .parenEnd, .text "x", .directive "endif", .tagOpen "x-c", .tagClose, .text "y",
    .directive "section", .parenStart, .text "pic, pic", .parenEnd, .directive "note",
    .parenStart, .text "z", .eof] := by decide +kernel
  have hone : (Arguments.split "pic").length = 1 := by decide +kernel
  have htwo : (Arguments.split "pic, pic").length = 2 := by decide +kernel
  have hblank : Text.trimChars [] = [] := rfl
  simp [parse, htokens, hone, htwo, hblank, build, splitArgs, splitParens,
    splitAtToken, sourceOf, Token.source, siblingNames, isBlock,
    blockNames, addText, Frame.close, Builder.directive,
    Builder.openBlock, Builder.addText, Builder.modify, Builder.closes,
    Builder.add, Builder.finish, Builder.tag]

lemma tatters_compiles : ∃ r, Routine.compile tatters = .ok r := by
  have hattrs : attributes "x-c" (TagText.attributes "") = .ok [] := rfl
  have htwo : arguments "section" (some "pic, pic") = .ok ("pic", ["pic"]) := by
    decide +kernel
  rw [Routine.compile, parse_tatters]
  simp [Routine.ofNode, children, Compile.extends?, Compile.nodes, Compile.node,
    condition?, homeOf?, slotBodies, arguments_pic, htwo, hattrs,
    expression_pic, simple, flagNames, bind, Except.bind, pure,
    Except.pure]

/-- The text in the tag that is never closed is kept. -/
theorem Routine.compile_drops_no_body_tatters :
    (Node.parse tatters).WellFormed ∧
      ∃ r, Routine.compile tatters = .ok r ∧ Instruction.Within (.text "y") r.body := by
  obtain ⟨hwellFormed, hkept⟩ := Routine.compile_drops_no_body tatters
  obtain ⟨r, hr⟩ := tatters_compiles
  have hextends : extends? (parse tatters).children = none := by
    rw [parse_tatters]
    rfl
  have hoccurs : ∃ path, Occurs [] (parse tatters) path [] (.text "y") := by
    rw [parse_tatters]
    exact ⟨_, .deeper (.head _) (.deeper (.tail _ (.head _)) (.child rfl))⟩
  obtain ⟨path, hy⟩ := hoccurs
  obtain ⟨b, is, hnode, his⟩ := (hkept hextends).2 hr hy (by decide +kernel)
  cases hnode
  exact ⟨hwellFormed, r, hr, his _ (.head _)⟩

end LiveMarkup
