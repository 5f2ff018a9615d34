import LiveMarkup.Proofs.Lowering
import LiveMarkup.Proofs.TreePrinting

/-!
# The shape of trees

Every source has a tree, however malformed it is: blocks that nobody closes end with the source, and
marks that close nothing turn into text. So what can be relied on is not that the source was in
order, but that the tree is: there is no root below the root, no text is empty or stands next to
another text, ends of blocks are not directives, and only a block has children.

The last of these is what the compiler counts on: most of its rules for directives do not look at
children at all, and for `@section` the number of arguments decides, when the tree is built and when
it is compiled. `eq_nil_of_ignoresChildren` says that these decisions agree.
-/

namespace LiveMarkup

open List Node Arguments

variable {n m : Node} {b : Builder}

namespace Node

/-! ## Places in a tree -/

/-- `Occurs above m path before n`: somewhere below `m`, which itself stands inside the nodes
`above`, there is the node `n`, inside the nodes `path`, innermost first, and behind its siblings
`before`. -/
inductive Occurs : List Node → Node → List Node → List Node → Node → Prop
  | child {above m before n after} (h : m.children = before ++ n :: after) :
    Occurs above m (m :: above) before n
  | deeper {above m k path before n} (hk : k ∈ m.children)
    (h : Occurs (m :: above) k path before n) : Occurs above m path before n

/-- A node is another one or is inside of it. -/
inductive Inside (n : Node) : Node → Prop
  | here : Inside n n
  | deeper {k m} (hk : k ∈ m.children) (h : Inside n k) : Inside n m

lemma Inside.eq_of_children (h : Inside n m) (hm : m.children = []) : n = m := by
  cases h with
  | here => rfl
  | deeper hk h =>
    rw [hm] at hk
    cases hk

lemma Occurs.inside (h : Occurs above m path before n) : ∃ k ∈ m.children, Inside n k := by
  induction h with
  | child hchildren => exact ⟨_, by simp [hchildren], .here⟩
  | deeper hk h ih =>
    obtain ⟨k', hk', hin⟩ := ih
    exact ⟨_, hk, .deeper hk' hin⟩

/-- Every tree that the parser builds is of this form. -/
structure WellFormed (root : Node) : Prop where
  isRoot : ∃ ns, root = .root ns
  inner {path before n} : Occurs [] root path before n → ∀ ns, n ≠ .root ns
  /-- No text is empty, and none stands directly behind another one. -/
  text {path before s} : Occurs [] root path before (.text s) →
    s ≠ "" ∧ ∀ t, before.getLast? ≠ some (.text t)
  /-- Ends of blocks are not directives, and only blocks have children. -/
  directive {path before name args ns} : Occurs [] root path before (.directive name args ns) →
    ¬ "end".toList <+: name.toList ∧
      (ns ≠ [] → isBlock name args = true ∧ name ∉ siblingNames)

/-! ## Shapes -/

def Apart (ns : List Node) : Prop :=
  ∀ before s after, ns = before ++ .text s :: after → ∀ t, before.getLast? ≠ some (.text t)

/-- A node below the root, with all that is in it. -/
inductive Shaped : Node → Prop
  | text {s} (h : s ≠ "") : Shaped (.text s)
  | echo {e} : Shaped (.echo e)
  | directive {name args ns} (hend : ¬ "end".toList <+: name.toList)
    (hblock : ns ≠ [] → opensBlock name args = true) (hns : ∀ n ∈ ns, Shaped n)
    (hapart : Apart ns) : Shaped (.directive name args ns)
  | component {tag attrs ns} (hns : ∀ n ∈ ns, Shaped n) (hapart : Apart ns) :
    Shaped (.component tag attrs ns)

/-- Nodes that may stand side by side. -/
structure Siblings (ns : List Node) : Prop where
  shaped : ∀ n ∈ ns, Shaped n
  apart : Apart ns

lemma siblings_nil : Siblings [] where
  shaped := nofun
  apart := by
    intro before s after h
    simp at h

variable {ns : List Node}

lemma Siblings.concat (h : Siblings ns) (hn : Shaped n)
    (htext : ∀ s, n = .text s → ∀ t, ns.getLast? ≠ some (.text t)) : Siblings (ns ++ [n]) where
  shaped := by
    intro m hm
    rcases mem_append.mp hm with hm | hm
    · exact h.shaped m hm
    · rw [mem_singleton.mp hm]
      exact hn
  apart := by
    intro before s after heq
    -- the text in question is the new node, or it was there before
    rcases eq_nil_or_concat after with rfl | ⟨after, last, rfl⟩
    · have hlast := append_inj_right' heq rfl
      obtain rfl := append_inj_left' heq rfl
      exact htext s (List.cons.inj hlast).1
    · rw [concat_eq_append, ← cons_append, ← append_assoc] at heq
      exact h.apart before s after (append_inj_left' heq rfl)

lemma Siblings.dropLast (h : Siblings (ns ++ [n])) : Siblings ns where
  shaped m hm := h.shaped m (mem_append_left _ hm)
  apart := by
    intro before s after heq
    exact h.apart before s (after ++ [n]) (by rw [heq, append_assoc, cons_append])

/-- Text joins the text before it, so that they do not stand side by side. -/
lemma Siblings.addText (h : Siblings ns) (s : String) : Siblings (addText ns s) := by
  unfold Node.addText
  split
  · exact h
  · rename_i hs
    have hne : s ≠ "" := by simpa using hs
    split
    · rename_i t ht
      obtain ⟨front, rfl⟩ := getLast?_eq_some_iff.mp ht
      rw [dropLast_concat]
      refine h.dropLast.concat (.text (by simp [hne])) ?_
      intro _ _ t'
      exact h.apart front t [] rfl t'
    · rename_i hlast
      exact h.concat (.text hne) fun _ _ t => hlast t

/-! ## Building -/

/-- What may be opened: blocks and component tags. -/
def Opener.Fit : Opener → Prop
  | .directive name args => ¬ "end".toList <+: name.toList ∧ opensBlock name args = true
  | .component _ _ => True

/-- Closing the block gives a node of the right shape, whenever it happens. -/
structure Frame.Ready (fr : Frame) : Prop where
  opener : fr.opener.Fit
  children : Siblings fr.children

lemma Frame.Ready.close {fr : Frame} (h : fr.Ready) : Shaped fr.close := by
  obtain ⟨opener, children⟩ := fr
  obtain ⟨hopener, hchildren⟩ := h
  cases opener with
  | directive name args =>
    exact .directive hopener.1 (fun _ => hopener.2) hchildren.shaped hchildren.apart
  | component tag attrs => exact .component hchildren.shaped hchildren.apart

lemma Frame.close_ne_text (fr : Frame) (s : String) : fr.close ≠ .text s := by
  obtain ⟨opener, children⟩ := fr
  cases opener <;> simp [Frame.close]

lemma Siblings.add (h : Siblings ns) (hn : Shaped n) (htext : ∀ s, n ≠ .text s) :
    Siblings (ns ++ [n]) :=
  h.concat hn fun s hs => absurd hs (htext s)

namespace Builder

/-- All that has been read so far has the right shape. -/
structure Ready (b : Builder) : Prop where
  frames : ∀ fr ∈ b.frames, fr.Ready
  top : Siblings b.top

section

variable (h : b.Ready)
include h

lemma Ready.modify (hf : ∀ ns, Siblings ns → Siblings (f ns)) : (b.modify f).Ready := by
  obtain ⟨frames, top⟩ := b
  obtain ⟨hframes, htop⟩ := h
  cases frames with
  | nil => exact ⟨nofun, hf top htop⟩
  | cons fr rest =>
    obtain ⟨hfr, hrest⟩ := forall_mem_cons.mp hframes
    refine ⟨forall_mem_cons.mpr ⟨?_, hrest⟩, htop⟩
    exact ⟨hfr.opener, hf _ hfr.children⟩

lemma Ready.add (hn : Shaped n) (htext : ∀ s, n ≠ .text s) : (b.add n).Ready :=
  h.modify fun _ hns => hns.add hn htext

lemma Ready.openBlock (ho : o.Fit) : (b.openBlock o).Ready :=
  ⟨forall_mem_cons.mpr ⟨⟨ho, siblings_nil⟩, h.frames⟩, h.top⟩

lemma Ready.closeBlock : b.closeBlock.Ready := by
  obtain ⟨frames, top⟩ := b
  cases frames with
  | nil => exact h
  | cons fr rest =>
    obtain ⟨hfr, hrest⟩ := forall_mem_cons.mp h.frames
    have hb : Ready { frames := rest, top := top } := ⟨hrest, h.top⟩
    exact hb.add hfr.close fr.close_ne_text

lemma Ready.directive (hend : ¬ "end".toList <+: name.toList) (args : Option String) :
    (b.directive name args).Ready := by
  cases hblock : opensBlock name args with
  | true =>
    rw [directive_of_block hblock]
    exact h.openBlock ⟨hend, hblock⟩
  | false =>
    rw [directive_of_single hblock]
    refine h.add (.directive hend ?_ nofun siblings_nil.apart) nofun
    exact fun hne => absurd rfl hne

lemma Ready.tag (name : String) (attrs : List Char) : (b.tag name attrs).Ready := by
  unfold Builder.tag
  dsimp only
  split
  · exact h.add (.component nofun siblings_nil.apart) nofun
  · exact h.openBlock trivial

end

lemma siblings_finish {frames : List Frame} {top : List Node}
    (hframes : ∀ fr ∈ frames, fr.Ready) (htop : Siblings top) : Siblings (finish frames top) := by
  fun_induction finish frames top with
  | case1 top => exact htop
  | case2 fr top =>
    exact htop.add (hframes fr (by simp)).close fr.close_ne_text
  | case3 fr fr' rest top ih =>
    obtain ⟨hfr, hframes⟩ := forall_mem_cons.mp hframes
    obtain ⟨hfr', hrest⟩ := forall_mem_cons.mp hframes
    refine ih (forall_mem_cons.mpr ⟨⟨hfr'.opener, ?_⟩, hrest⟩) htop
    exact hfr'.children.add hfr.close fr.close_ne_text

end Builder

lemma ready_build (h : b.Ready) (ts : List Token) : (build b ts).Ready := by
  have haddText : ∀ {b : Builder}, b.Ready → ∀ s, (b.addText s).Ready := by
    intro b hb s
    exact hb.modify fun _ hns => hns.addText s
  fun_induction build b ts with
  | case1 b | case2 b ts => exact h
  | case3 b s ts ih => exact ih (haddText h s)
  | case4 b ts hlength r ih => exact ih (h.add .echo nofun)
  | case5 b name ts hend hcloses ih | case9 b name ts hcloses ih => exact ih h.closeBlock
  | case6 b name ts hend hcloses ih | case10 b name ts hcloses ih | case11 b ts ih
  | case12 b ts ih | case13 b ts ih | case14 b ts ih => exact ih (haddText h _)
  | case7 b name ts hend hlength r ih =>
    refine ih (h.directive ?_ r.1)
    rwa [← isPrefixOf_iff_prefix]
  | case8 b name ts hlength r ih => exact ih (h.tag name _)

lemma siblings_parse (source : String) : Siblings (parse source).children := by
  have hready := ready_build (b := {}) ⟨nofun, siblings_nil⟩ (Token.tokenize source)
  exact Builder.siblings_finish hready.frames hready.top

/-! ## What can be said of every place -/

lemma Shaped.siblings_children (h : Shaped n) : Siblings n.children := by
  cases h with
  | text | echo => exact siblings_nil
  | directive hend hblock hns hapart | component hns hapart => exact ⟨hns, hapart⟩

lemma Occurs.shaped (h : Occurs above m path before n) (hm : Siblings m.children) :
    Shaped n ∧ ∀ s, n = .text s → ∀ t, before.getLast? ≠ some (.text t) := by
  induction h with
  | child hchildren =>
    refine ⟨hm.shaped _ (by simp [hchildren]), ?_⟩
    rintro s rfl
    exact hm.apart _ s _ hchildren
  | deeper hk h ih => exact ih (hm.shaped _ hk).siblings_children

lemma wellFormed_parse (source : String) : (parse source).WellFormed where
  isRoot := ⟨_, rfl⟩
  inner h := by
    rintro ns rfl
    cases (h.shaped (siblings_parse source)).1
  text h := by
    obtain ⟨hshaped, hbefore⟩ := h.shaped (siblings_parse source)
    cases hshaped with
    | text hs => exact ⟨hs, hbefore _ rfl⟩
  directive h := by
    cases (h.shaped (siblings_parse source)).1 with
    | directive hend hblock hns hapart =>
      refine ⟨hend, fun hne => ?_⟩
      have hopens := hblock hne
      simp only [opensBlock, Bool.and_eq_true, Bool.not_eq_true', contains_eq_mem,
        decide_eq_false_iff_not] at hopens
      exact ⟨hopens.2, hopens.1⟩

end Node

/-! ## Rules that do not look at children -/

namespace Compile

/-- The directives for which the compiler has a rule that does not look at children. -/
inductive IgnoresChildren : String → Option String → Prop
  /-- Dividers and labels, outside of the blocks that they belong to. -/
  | misplaced {name args home} (h : homeOf? name = some home) : IgnoresChildren name args
  | leave {args} : IgnoresChildren "break" args
  /-- A section without a name. -/
  | nameless {args e} (h : arguments "section" args = .error e) : IgnoresChildren "section" args
  /-- A section with a value in place of a body. -/
  | inline {args first value rest} (h : arguments "section" args = .ok (first, value :: rest)) :
    IgnoresChildren "section" args
  /-- All directives that only add text, those that nobody knows among them. -/
  | simple {name args} (h : IsSimple name) : IgnoresChildren name args

variable {name : String} {args : Option String}

lemma node_of_homeOf? (h : homeOf? name = some home) (b : Bool) (args : Option String)
    (ns : List Node) : node b (.directive name args ns) = .error (.misplaced name home) := by
  have hcond : condition? name = none := by
    unfold homeOf? at h
    split at h <;> first | rfl | cases h
  unfold node
  rw [hcond, h]
  rfl

lemma IgnoresChildren.node_eq (h : IgnoresChildren name args) (b : Bool) (ns : List Node) :
    node b (.directive name args ns) = node b (.directive name args []) := by
  cases h with
  | misplaced h => rw [node_of_homeOf? h, node_of_homeOf? h]
  | leave => rfl
  | nameless h | inline h =>
    show arguments "section" args >>= _ = arguments "section" args >>= _
    rw [h]
    rfl
  | simple h => rw [node_of_isSimple h, node_of_isSimple h]

lemma eq_of_pieces_eq_singleton (h : pieces state cs = [p]) : p = cs := by
  have hne : ∀ (state : State) cs, pieces state cs ≠ [] := by
    intro state cs
    fun_cases pieces state cs <;> simp
  induction cs generalizing state p with
  | nil => simpa [pieces] using h.symm
  | cons c cs ih =>
    rw [pieces] at h
    split at h
    · exact absurd (List.cons.inj h).2 (hne _ _)
    · split at h
      · rename_i hnil
        exact absurd hnil (hne _ _)
      · rename_i piece more hpieces
        obtain ⟨rfl, rfl⟩ := List.cons.inj h
        rw [ih hpieces]

lemma arguments_of_isBlock (h : isBlock "section" args = true) :
    ∃ first, arguments "section" args = .ok (first, []) := by
  have hany : (args.any fun a => (split a).length == 1) = true := by
    simpa [isBlock, blockNames] using h
  obtain ⟨a, rfl, hlength⟩ := (Option.any_eq_true _ _).mp hany
  obtain ⟨first, hsplit⟩ := length_eq_one_iff.mp (beq_iff_eq.mp hlength)
  refine ⟨first, ?_⟩
  -- the only argument is the whole text, which is not blank
  have hfirst : first.isEmpty = false := by
    unfold split at hsplit
    dsimp only at hsplit
    split at hsplit
    · cases hsplit
    · rename_i hblank
      obtain ⟨piece, hpieces, rfl⟩ := map_eq_singleton_iff.mp hsplit
      rw [eq_of_pieces_eq_singleton hpieces]
      simpa [String.isEmpty_iff, String.ofList_eq_empty_iff] using hblank
  simp [arguments, hsplit, hfirst]
  rfl

lemma not_ignoresChildren (h : opensBlock name args = true) : ¬ IgnoresChildren name args := by
  simp only [opensBlock, Bool.and_eq_true, Bool.not_eq_true'] at h
  obtain ⟨hsibling, hblock⟩ := h
  intro hignores
  cases hignores with
  | misplaced hhome =>
    unfold homeOf? at hhome
    split at hhome <;> simp_all [siblingNames]
  | leave => simp [siblingNames] at hsibling
  | nameless herror =>
    obtain ⟨first, harguments⟩ := arguments_of_isBlock hblock
    rw [harguments] at herror
    cases herror
  | inline hvalue =>
    obtain ⟨first, harguments⟩ := arguments_of_isBlock hblock
    rw [harguments] at hvalue
    cases hvalue
  | simple hsimple =>
    obtain ⟨hcond, -, hbody⟩ := hsimple
    simp only [isBlock, blockNames, Bool.or_eq_true, contains_eq_mem,
      decide_eq_true_eq, Bool.and_eq_true, beq_iff_eq, mem_cons, not_mem_nil,
      or_false] at hblock
    rcases hblock with (rfl | rfl | rfl | rfl | rfl | rfl | rfl | rfl) | ⟨rfl, -⟩
    -- conditionals have a condition, and all other blocks a rule of their own
    · cases hcond
    · cases hcond
    · cases hcond
    · cases hcond
    all_goals simp [bodyNames] at hbody

lemma eq_nil_of_ignoresChildren (h : (directive name args ns).Shaped)
    (hname : IgnoresChildren name args) : ns = [] := by
  cases h with
  | directive hend hblock hns hapart =>
    by_contra hne
    exact not_ignoresChildren (hblock hne) hname

end Compile

end LiveMarkup
