import LiveMarkup.Proofs.Confinement
import LiveMarkup.Proofs.Places
import LiveMarkup.Proofs.Retention
import LiveMarkup.Proofs.TreePrinting

/-!
# Where directives may stand

The compiler refuses directives that are not in their place, and it does so on its way through the
tree: each of its functions knows the children it is given, what it has read of them, and whether a
break has something to leave. When all expressions and arguments are in order, nothing else is
refused, and so a template compiles exactly when every node of it is in its place.
-/

namespace LiveMarkup

open List Compile Meaning Node
open Node (conditionals each_cons each_nil everywhere_iff name?)

variable {name : String} {α ε β : Type} {x : Except ε α} {n : Node}

namespace Compile

open Node (Each Everywhere Free Placed Plain divides_cases isLabel_cases leavable parent?
  placed_iff_of_conditional placed_iff_of_divides placed_iff_of_isLabel placed_iff_of_switch
  plain_of_name plain_of_name?_eq_none)

/-- The arguments of a directive are in order, wherever it stands and whatever is in it. -/
structure SoundArguments (name : String) (args : Option String) : Prop where
  /-- Conditionals have an expression, like the other directives that decide or compare. -/
  condition {test} : condition? name = some test → ∃ e, argument name args = .ok e
  expression : name ∈ ["elseif", "switch", "case"] → ∃ e, argument name args = .ok e
  clause : name = "foreach" → ∃ l, loop args = .ok l
  /-- Sections have a name, and if they have a value it is an expression. -/
  inline : name = "section" → ∃ first rest, arguments name args = .ok (first, rest) ∧
    ∀ value ∈ rest.head?, ∃ e, Expr.parse value = .ok e
  stack : name = "push" → ∃ first rest, arguments name args = .ok (first, rest)
  /-- Components have a name and maybe data, both expressions. -/
  view : name = "component" → ∃ first rest, arguments name args = .ok (first, rest) ∧
    (∃ e, Expr.parse first = .ok e) ∧ ∀ data ∈ rest.head?, ∃ e, Expr.parse data = .ok e
  simple : IsSimple name → ∃ i, simple name args = .ok i

/-- A node is in order, taken alone: its expressions, its attributes, its arguments. -/
def Sound : Node → Prop
  | .root _ | .text _ => True
  | .echo source => ∃ e, Expr.parse source = .ok e
  | .component _ attrs _ =>
    ∀ a ∈ TagText.attributes attrs, a.isDynamic = true → ∃ e, Expr.parse a.value = .ok e
  | .directive name args _ => SoundArguments name args

lemma expression_of_parse (h : Expr.parse source = .ok e) (context : String) :
    expression context source = .ok e := by
  rw [expression, h]

lemma optional_of_parse (context : String) (h : ∀ s ∈ source, ∃ e, Expr.parse s = .ok e) :
    ∃ d, optional context source = .ok d := by
  cases source with
  | none => exact ⟨none, rfl⟩
  | some s =>
    obtain ⟨e, he⟩ := h s rfl
    refine ⟨some e, ?_⟩
    rw [optional, expression_of_parse he]
    rfl

lemma attributes_of_parse (tag : String)
    (h : ∀ a ∈ attrs, a.isDynamic = true → ∃ e, Expr.parse a.value = .ok e) :
    ∃ values, attributes tag attrs = .ok values := by
  induction attrs with
  | nil => exact ⟨[], rfl⟩
  | cons a attrs ih =>
    obtain ⟨ha, hattrs⟩ := forall_mem_cons.mp h
    obtain ⟨values, hvalues⟩ := ih hattrs
    unfold attributes
    rw [hvalues]
    split
    · obtain ⟨e, he⟩ := ha ‹_›
      rw [expression_of_parse he]
      exact ⟨_, rfl⟩
    · exact ⟨_, rfl⟩

lemma exists_ok_of_ok (h : x = .ok a) (f : α → Except ε β) :
    (∃ r, x >>= f = .ok r) ↔ ∃ r, f a = .ok r := by
  rw [h]
  rfl

lemma exists_ok_map (f : α → β) : (∃ r, (do let a ← x; pure (f a)) = .ok r) ↔ ∃ a, x = .ok a := by
  cases x with
  | error e => simp [bind, Except.bind]
  | ok a => exact ⟨fun _ => ⟨a, rfl⟩, fun _ => ⟨f a, rfl⟩⟩

lemma exists_ok_bind {f : α → Except ε β} (hx : (∃ a, x = .ok a) ↔ p)
    (hf : ∀ a, (∃ r, f a = .ok r) ↔ q) : (∃ r, x >>= f = .ok r) ↔ p ∧ q := by
  rw [← hx]
  cases x with
  | error e => simp [bind, Except.bind]
  | ok a =>
    rw [← hf a]
    exact ⟨fun h => ⟨⟨a, rfl⟩, h⟩, fun h => h.2⟩

lemma directive_cases (name : String) :
    (∃ test, condition? name = some test) ∨ (∃ home, homeOf? name = some home) ∨
      IsSimple name ∨ name ∈ bodyNames := by
  cases hcond : condition? name with
  | some test => exact .inl ⟨test, rfl⟩
  | none =>
    cases hhome : homeOf? name with
    | some home => exact .inr (.inl ⟨home, rfl⟩)
    | none =>
      by_cases hbody : name ∈ bodyNames
      · exact .inr (.inr (.inr hbody))
      · exact .inr (.inr (.inl ⟨hcond, hhome, hbody⟩))

variable {args : Option String} {ns path : List Node}

lemma conditional_cases (h : condition? name = some test) (args : Option String)
    (ns path : List Node) :
    parent? (.directive name args ns :: path) ∈ conditionals ∧
      leavable (.directive name args ns :: path) = leavable path ∧
      Free path (.directive name args ns) := by
  unfold condition? at h
  split at h
  case h_5 => cases h
  all_goals
    exact ⟨by simp [parent?, name?, conditionals], rfl, rfl, rfl, by simp [name?]⟩

lemma children_eq_nil (hn : n.Shaped)
    (h : divides n = true ∨ isLabel n = true) : n.children = [] := by
  rcases h with h | h
  · rcases divides_cases h with ⟨args, ns, rfl⟩ | ⟨args, ns, rfl⟩ <;>
      exact eq_nil_of_ignoresChildren hn (.misplaced rfl)
  · rcases isLabel_cases h with ⟨args, ns, rfl⟩ | ⟨args, ns, rfl⟩ <;>
      exact eq_nil_of_ignoresChildren hn (.misplaced rfl)

lemma slotBodies_cons (h : isSlot n = false) (p : SlotParts) (ns : List Node) :
    slotBodies p (n :: ns) = (do
      let is ← node false n
      slotBodies { p with default := some (p.default.getD [] ++ is) } ns) := by
  conv_lhs => unfold slotBodies
  split <;> simp_all [isSlot]

/-! When its arguments are in order, a block compiles if its children do. -/

section Blocks

variable {args : Option String} {ns : List Node} {b : Bool}

lemma exists_ok_conditional (htest : condition? name = some test)
    (h : ∃ e, argument name args = .ok e) (b : Bool) (ns : List Node) :
    ∃ c, (∃ is, node b (.directive name args ns) = .ok is) ↔
      ∃ p, branchBodies b ⟨[], some c, []⟩ ns = .ok p := by
  obtain ⟨e, he⟩ := h
  refine ⟨test e, ?_⟩
  unfold node
  rw [htest]
  exact (exists_ok_of_ok he _).trans (exists_ok_map _)

lemma exists_ok_block {y : Except ε γ} (h : ∃ c, y = .ok c) (f : γ → α → β) :
    (∃ r, (do let c ← y; let a ← x; pure (f c a)) = .ok r) ↔ ∃ a, x = .ok a := by
  obtain ⟨c, hc⟩ := h
  exact (exists_ok_of_ok hc _).trans (exists_ok_map _)

lemma exists_ok_push (h : ∃ first rest, arguments "push" args = .ok (first, rest)) :
    (∃ is, node b (.directive "push" args ns) = .ok is) ↔ ∃ is, nodes false ns = .ok is := by
  obtain ⟨first, rest, ha⟩ := h
  exact (exists_ok_of_ok ha _).trans (exists_ok_map _)

lemma exists_ok_component (h : ∃ first rest, arguments "component" args = .ok (first, rest) ∧
      (∃ e, Expr.parse first = .ok e) ∧ ∀ data ∈ rest.head?, ∃ e, Expr.parse data = .ok e) :
    (∃ is, node b (.directive "component" args ns) = .ok is) ↔ ∃ is, nodes false ns = .ok is := by
  obtain ⟨first, rest, ha, ⟨e, he⟩, hdata⟩ := h
  obtain ⟨d, hd⟩ := optional_of_parse "@component" hdata
  refine (exists_ok_of_ok ha _).trans ?_
  rw [← and_true (∃ is, nodes false ns = .ok is)]
  refine exists_ok_bind Iff.rfl fun is => iff_true_intro ?_
  rw [exists_ok_of_ok (expression_of_parse he _), exists_ok_of_ok hd]
  exact ⟨_, rfl⟩

lemma exists_ok_section (h : ∃ first rest, arguments "section" args = .ok (first, rest) ∧
      ∀ value ∈ rest.head?, ∃ e, Expr.parse value = .ok e)
    (hshaped : (directive "section" args ns).Shaped) :
    (∃ is, node b (.directive "section" args ns) = .ok is) ↔ ∃ is, nodes b ns = .ok is := by
  obtain ⟨first, rest, ha, hvalue⟩ := h
  refine (exists_ok_of_ok ha _).trans ?_
  cases rest with
  | nil => exact Iff.rfl
  | cons value rest =>
    obtain rfl := eq_nil_of_ignoresChildren hshaped (.inline ha)
    obtain ⟨e, he⟩ := hvalue value rfl
    refine iff_of_true ?_ ⟨[], rfl⟩
    refine (exists_ok_of_ok (expression_of_parse he _) _).mpr ⟨_, rfl⟩

end Blocks

lemma free_of_homeOf? (h : homeOf? name = none) (hname : name ≠ "break") :
    Free path (.directive name args ns) := by
  obtain ⟨hdivides, hlabel⟩ := homeOf?_eq_none_iff.mp h
  refine ⟨hdivides, hlabel, fun hbreak => absurd ?_ hname⟩
  exact Option.some.inj hbreak

lemma block_ok_iff (hnode : (∃ is, node b n = .ok is) ↔ ∃ a, x = .ok a) (hfree : Free path n)
    (hx : (∃ a, x = .ok a) ↔ Each Placed (n :: path) [] n.children) :
    (∃ is, node b n = .ok is) ↔ Free path n ∧ Everywhere Placed path n := by
  rw [hnode, hx, and_iff_right hfree, everywhere_iff]

/-! ## One pass over the tree

Each function of the compiler takes the siblings that are left, and what it has made of those before
them is told from `before`: whether an `@else` has been read, whether there are labels, whether one
of them is a default. -/

mutual

lemma node_ok_iff : (n : Node) → n.Shaped → ∀ {path}, Sound n →
    Everywhere (fun _ _ => Sound) path n →
      ((∃ is, node (leavable path) n = .ok is) ↔ Free path n ∧ Everywhere Placed path n)
  | .root ns, hshaped, _, _, _ => nomatch hshaped
  | .text s, _, path, _, _ =>
    iff_of_true ⟨_, rfl⟩ ⟨⟨rfl, rfl, nofun⟩, everywhere_of_children rfl⟩
  | .echo source, _, path, hn, _ => by
    obtain ⟨e, he⟩ := hn
    refine iff_of_true ⟨[.echo e], ?_⟩ ⟨⟨rfl, rfl, nofun⟩, everywhere_of_children rfl⟩
    rw [node, expression_of_parse he]
    rfl
  | .component tag attrs ns, hshaped, path, hn, hsound => by
    obtain ⟨values, hvalues⟩ := attributes_of_parse tag hn
    have hnode : (∃ is, node (leavable path) (.component tag attrs ns) = .ok is) ↔
        ∃ p, slotBodies {} ns = .ok p := by
      rw [node, exists_ok_of_ok hvalues, exists_ok_map]
    exact block_ok_iff hnode ⟨rfl, rfl, nofun⟩
      (slotBodies_ok_iff ns hshaped.siblings_children.shaped (plain_of_name?_eq_none rfl) rfl {}
        (everywhere_iff.mp hsound))
  | .directive name args ns, hshaped, path, hn, hsound => by
    have hns := hshaped.siblings_children.shaped
    have hbelow := everywhere_iff.mp hsound
    rcases directive_cases name with ⟨test, htest⟩ | ⟨home, hhome⟩ | hsimple | hbody
    · obtain ⟨hparent, hleavable, hfree⟩ := conditional_cases htest args ns path
      obtain ⟨c, hnode⟩ := exists_ok_conditional htest (hn.condition htest) (leavable path) ns
      rw [← hleavable] at hnode ⊢
      exact block_ok_iff hnode hfree
        (branchBodies_ok_iff ns hns hparent ⟨[], some c, []⟩ (by simp) hbelow)
    · -- as a child of any other block a divider or a label is refused
      rw [node_of_homeOf? hhome]
      refine iff_of_false (by simp) fun ⟨hfree, _⟩ => ?_
      rw [homeOf?_eq_none_iff.mpr ⟨hfree.divider, hfree.label⟩] at hhome
      cases hhome
    · obtain ⟨i, hi⟩ := hn.simple hsimple
      obtain rfl := eq_nil_of_ignoresChildren hshaped (.simple hsimple)
      rw [node_of_isSimple hsimple, hi]
      refine iff_of_true ⟨[i], rfl⟩ ⟨free_of_homeOf? hsimple.2.1 ?_, everywhere_of_children rfl⟩
      rintro rfl
      exact hsimple.2.2 (by decide)
    · simp only [bodyNames, mem_cons, not_mem_nil, or_false] at hbody
      rcases hbody with rfl | rfl | rfl | rfl | rfl | rfl
      · obtain rfl := eq_nil_of_ignoresChildren hshaped .leave
        rw [and_iff_left (everywhere_of_children rfl)]
        refine ⟨fun ⟨is, his⟩ => ⟨rfl, rfl, fun _ => ?_⟩, fun hfree => ⟨[.leave], ?_⟩⟩
        · by_contra hleavable
          rw [Bool.not_eq_true] at hleavable
          rw [hleavable] at his
          cases his
        · rw [hfree.leave rfl]
          rfl
      · exact block_ok_iff (exists_ok_block (hn.expression (by simp)) _)
          (free_of_homeOf? rfl (by decide))
          (switchBody_ok_iff ns hns rfl rfl {} (by simp) (by simp) hbelow)
      all_goals
        refine block_ok_iff ?_ (free_of_homeOf? rfl (by decide))
          (nodes_ok_iff ns hns (plain_of_name (by decide) (by decide)) hbelow)
      · exact exists_ok_block (hn.clause rfl) _
      · exact exists_ok_section (hn.inline rfl) hshaped
      · exact exists_ok_push (hn.stack rfl)
      · exact exists_ok_component (hn.view rfl)

lemma nodes_ok_iff : (ns : List Node) → (∀ n ∈ ns, n.Shaped) → ∀ {path before},
    Plain path → Each (fun _ _ => Sound) path before ns →
      ((∃ is, nodes (leavable path) ns = .ok is) ↔ Each Placed path before ns)
  | [], _, _, _, _, _ => iff_of_true ⟨[], rfl⟩ each_nil
  | n :: ns, hshaped, path, before, hplain, hsound => by
    obtain ⟨hn, hns⟩ := forall_mem_cons.mp hshaped
    obtain ⟨⟨hsound, hbelow⟩, hrest⟩ := each_cons.mp hsound
    rw [nodes, each_cons, placed_iff_of_plain hplain]
    refine exists_ok_bind (node_ok_iff n hn hsound hbelow) fun is => ?_
    rw [exists_ok_map]
    exact nodes_ok_iff ns hns hplain hrest

lemma branchBodies_ok_iff : (ns : List Node) → (∀ n ∈ ns, n.Shaped) → ∀ {path before},
    parent? path ∈ conditionals → ∀ p : BranchParts,
      (p.condition = none ↔ ∃ m ∈ before, m.name? = some "else") →
        Each (fun _ _ => Sound) path before ns →
          ((∃ q, branchBodies (leavable path) p ns = .ok q) ↔ Each Placed path before ns)
  | [], _, _, _, _, p, _, _ => iff_of_true ⟨p, rfl⟩ each_nil
  | n :: ns, hshaped, path, before, hpath, p, hp, hsound => by
    obtain ⟨hn, hns⟩ := forall_mem_cons.mp hshaped
    obtain ⟨⟨hsound, hbelow⟩, hrest⟩ := each_cons.mp hsound
    rw [each_cons]
    cases hdivides : divides n with
    | false =>
      rw [branchBodies_cons hdivides, placed_iff_of_conditional hpath hdivides]
      refine exists_ok_bind (node_ok_iff n hn hsound hbelow) fun is => ?_
      refine branchBodies_ok_iff ns hns hpath _ ?_ hrest
      have hname : n.name? ≠ some "else" := by
        intro hname
        rw [divides_of_name?_else hname] at hdivides
        cases hdivides
      simp [hp, hname]
    | true =>
      have hplaced : Everywhere Placed path n :=
        everywhere_of_children (children_eq_nil hn (.inl hdivides))
      rw [placed_iff_of_divides hpath hdivides, and_iff_left hplaced]
      obtain ⟨bs, c, body⟩ := p
      cases c with
      | none =>
        -- the branch behind `@else` is the last one
        obtain ⟨m, hm, hname⟩ := hp.mp rfl
        refine iff_of_false ?_ fun h => h.1 m hm hname
        rcases divides_cases hdivides with ⟨args, cs, rfl⟩ | ⟨args, cs, rfl⟩ <;> simp [branchBodies]
      | some c =>
        have hbefore : ∀ m ∈ before, m.name? ≠ some "else" := by
          intro m hm hname
          exact absurd (hp.mpr ⟨m, hm, hname⟩) (by simp)
        rw [and_iff_right hbefore]
        rcases divides_cases hdivides with ⟨args, cs, rfl⟩ | ⟨args, cs, rfl⟩
        · rw [branchBodies]
          exact branchBodies_ok_iff ns hns hpath _ (by simp [name?]) hrest
        · obtain ⟨e, he⟩ := hsound.expression (by simp)
          rw [branchBodies]
          refine (exists_ok_of_ok he _).trans ?_
          exact branchBodies_ok_iff ns hns hpath _ (by simpa [name?] using hbefore) hrest

lemma switchBody_ok_iff : (ns : List Node) → (∀ n ∈ ns, n.Shaped) → ∀ {path before},
    parent? path = some "switch" → leavable path = true → ∀ p : SwitchParts,
      (p.labels = [] ↔ ∀ m ∈ before, isLabel m = false) →
        (p.labels.any (·.1.isNone) = true ↔ ∃ m ∈ before, m.name? = some "default") →
          Each (fun _ _ => Sound) path before ns →
            ((∃ q, switchBody p ns = .ok q) ↔ Each Placed path before ns)
  | [], _, _, _, _, _, p, _, _, _ => iff_of_true ⟨p, rfl⟩ each_nil
  | n :: ns, hshaped, path, before, hpath, hleavable, p, hlabels, hdefault, hsound => by
    obtain ⟨hn, hns⟩ := forall_mem_cons.mp hshaped
    obtain ⟨⟨hsound, hbelow⟩, hrest⟩ := each_cons.mp hsound
    rw [each_cons]
    cases hlabel : isLabel n with
    | false =>
      have hname : n.name? ≠ some "default" := by
        intro hname
        rw [isLabel_of_name?_default hname] at hlabel
        cases hlabel
      have hlabels' : p.labels = [] ↔ ∀ m ∈ before ++ [n], isLabel m = false := by
        simpa [hlabel, or_imp, forall_and] using hlabels
      have hdefault' : p.labels.any (·.1.isNone) = true ↔
          ∃ m ∈ before ++ [n], m.name? = some "default" := by
        simpa [hname] using hdefault
      rw [switchBody_cons hlabel, placed_iff_of_switch hpath hlabel]
      by_cases hempty : p.labels = []
      · rw [if_pos (hlabels.mp hempty), if_pos (isEmpty_iff.mpr hempty)]
        cases hblank : n.isBlankText with
        | false => exact iff_of_false (by simp) (by simp)
        | true =>
          have hplaced : Everywhere Placed path n :=
            everywhere_of_children (of_isBlankText hblank).2
          rw [and_iff_right ⟨rfl, hplaced⟩]
          exact switchBody_ok_iff ns hns hpath hleavable p hlabels' hdefault' hrest
      · rw [if_neg (mt hlabels.mpr hempty), if_neg (by simpa using hempty)]
        have hnode := node_ok_iff n hn hsound hbelow
        rw [hleavable] at hnode
        exact exists_ok_bind hnode fun is =>
          switchBody_ok_iff ns hns hpath hleavable _ hlabels' hdefault' hrest
    | true =>
      have hplaced : Everywhere Placed path n :=
        everywhere_of_children (children_eq_nil hn (.inr hlabel))
      rw [placed_iff_of_isLabel hpath hlabel, and_iff_left hplaced]
      rcases isLabel_cases hlabel with ⟨args, cs, rfl⟩ | ⟨args, cs, rfl⟩
      · obtain ⟨test, htest⟩ := hsound.expression (by simp)
        rw [switchBody, and_iff_right (by simp [name?])]
        refine (exists_ok_of_ok htest _).trans ?_
        exact switchBody_ok_iff ns hns hpath hleavable _ (by simp [isLabel])
          (by simpa [name?] using hdefault) hrest
      · rw [switchBody]
        cases hany : p.labels.any (·.1.isNone) with
        | true =>
          obtain ⟨m, hm, hname⟩ := hdefault.mp hany
          exact iff_of_false (fun ⟨_, hq⟩ => nomatch hq) fun h => h.1 rfl m hm hname
        | false =>
          have hbefore : ∀ m ∈ before, m.name? ≠ some "default" := by
            intro m hm hname
            rw [hdefault.mpr ⟨m, hm, hname⟩] at hany
            cases hany
          rw [and_iff_right fun _ => hbefore]
          exact switchBody_ok_iff ns hns hpath hleavable _ (by simp [isLabel])
            (by simp [name?]) hrest

lemma slotBodies_ok_iff : (ns : List Node) → (∀ n ∈ ns, n.Shaped) → ∀ {path before},
    Plain path → leavable path = false → ∀ p : SlotParts,
      Each (fun _ _ => Sound) path before ns →
        ((∃ q, slotBodies p ns = .ok q) ↔ Each Placed path before ns)
  | [], _, _, _, _, _, p, _ => iff_of_true ⟨p, rfl⟩ each_nil
  | n :: ns, hshaped, path, before, hplain, hleavable, p, hsound => by
    obtain ⟨hn, hns⟩ := forall_mem_cons.mp hshaped
    obtain ⟨⟨hsound, hbelow⟩, hrest⟩ := each_cons.mp hsound
    rw [each_cons, placed_iff_of_plain hplain]
    cases hslot : isSlot n with
    | false =>
      rw [slotBodies_cons hslot]
      have hnode := node_ok_iff n hn hsound hbelow
      rw [hleavable] at hnode
      exact exists_ok_bind hnode fun is => slotBodies_ok_iff ns hns hplain hleavable _ hrest
    | true =>
      cases n with
      | component tag attrs cs =>
        obtain rfl : tag = "x-slot" := by simpa [isSlot] using hslot
        -- the tag of a slot is no component, but it detaches its children all the same
        have hfree : Free path (.component "x-slot" attrs cs) := ⟨rfl, rfl, nofun⟩
        rw [slotBodies, and_iff_right hfree, everywhere_iff]
        refine exists_ok_bind ?_ fun is => slotBodies_ok_iff ns hns hplain hleavable _ hrest
        exact nodes_ok_iff cs hn.siblings_children.shaped (plain_of_name?_eq_none rfl)
          (everywhere_iff.mp hbelow)
      | root | text | echo | directive => cases hslot

end

end Compile

namespace Routine

open Node (Everywhere Fits Labelled)

/-- When every node of a template without a layout is in order by itself, the template compiles if
and only if all of its directives are where they belong and switches without labels are blank. -/
theorem compiles_iff_fits {source : String}
    (hextends : Compile.extends? (Node.parse source).children = none)
    (hsound : Everywhere (fun _ _ => Compile.Sound) [] (Node.parse source)) :
    (∃ r, Routine.compile source = .ok r) ↔
      Everywhere (fun path before n => Fits path before n ∧ Labelled n) []
        (Node.parse source) := by
  rw [← everywhere_placed_iff rfl, everywhere_iff, compile,
    ofNode_of_extends?_eq_none hextends, exists_ok_map]
  exact nodes_ok_iff _ (siblings_parse source).shaped (plain_of_name?_eq_none rfl)
    (everywhere_iff.mp hsound)

end Routine

/-! A drawer in which all places are taken: a loop around a switch with a blank before its labels, a
break in a branch of a conditional, a component tag behind the default. -/

def drawer : String :=
  "@foreach(pic as it)@switch(pic) @case(pic)@if(pic)@break@else-@endif" ++
    "@default<x-a>\x7b\x7b pic \x7d\x7d</x-a>@endswitch@endforeach"

lemma parse_drawer : parse drawer = .root [.directive "foreach" (some "pic as it")
      [.directive "switch" (some "pic") [.text " ", .directive "case" (some "pic") [],
          .directive "if" (some "pic")
            [.directive "break" none [], .directive "else" none [], .text "-"],
          .directive "default" none [], .component "x-a" "" [.echo "pic"]]]] :=
  parse_printed (by decide +kernel) (by decide +kernel)

lemma Compile.soundArguments_pic (h : name ∈ ["if", "switch", "case"]) :
    SoundArguments name (some "pic") := by
  simp only [mem_cons, not_mem_nil, or_false] at h
  constructor <;> rcases h with rfl | rfl | rfl <;>
    simp [IsSimple, bodyNames, condition?, homeOf?, argument_pic]

lemma sound_drawer : Everywhere (fun _ _ => Sound) [] (parse drawer) := by
  have hbare : ∀ name ∈ ["else", "default", "break"], SoundArguments name none := by
    intro name hname
    simp only [mem_cons, not_mem_nil, or_false] at hname
    constructor <;> rcases hname with rfl | rfl | rfl <;>
      simp [IsSimple, bodyNames, condition?, homeOf?]
  have hloop : SoundArguments "foreach" (some "pic as it") := by
    constructor <;>
      simp [IsSimple, bodyNames, condition?, loop_pic]
  have hattrs : TagText.attributes "" = [] := rfl
  rw [parse_drawer]
  simp [everywhere_iff, children, Sound, soundArguments_pic, hbare, hloop,
    hattrs, parse_pic]

lemma fits_drawer : Everywhere
    (fun path before n => Fits path before n ∧ Labelled n) [] (parse drawer) := by
  have hblank : isBlankText (.text " ") = true := by decide +kernel
  rw [parse_drawer, ← everywhere_placed_iff rfl]
  simp [everywhere_iff, children, placed_iff, divides, isLabel,
    name?, parent?, conditionals, leavable, catches, detaches, hblank]

theorem Routine.compiles_iff_fits_drawer :
    Compile.extends? (Node.parse drawer).children = none ∧
      Node.Everywhere (fun _ _ => Compile.Sound) [] (Node.parse drawer) ∧
      Node.Everywhere (fun path before n => Node.Fits path before n ∧ Node.Labelled n) []
        (Node.parse drawer) ∧
      ∃ r, Routine.compile drawer = .ok r := by
  have hextends : extends? (parse drawer).children = none := by
    rw [parse_drawer]
    rfl
  exact ⟨hextends, sound_drawer, fits_drawer,
    (Routine.compiles_iff_fits hextends sound_drawer).mpr fits_drawer⟩

def unlabelled : String :=
  "@switch(pic)x@endswitch"

lemma parse_unlabelled : parse unlabelled = .root [.directive "switch" (some "pic") [.text "x"]] :=
  parse_printed (by decide +kernel) (by decide +kernel)

/-- No label is preceded by the text, since there is none; the switch is refused nevertheless. -/
theorem Routine.unlabelled_switch_refused :
    Compile.extends? (Node.parse unlabelled).children = none ∧
      Node.Everywhere (fun _ _ => Compile.Sound) [] (Node.parse unlabelled) ∧
      Node.Everywhere Node.Fits [] (Node.parse unlabelled) ∧
      Routine.compile unlabelled = .error .contentBeforeCase := by
  have hblank : isBlankText (.text "x") = false := by decide +kernel
  rw [Routine.compile, parse_unlabelled]
  refine ⟨rfl, ?_, ?_, ?_⟩
  · simp [everywhere_iff, children, Sound, soundArguments_pic]
  · simp [everywhere_iff, children, fits_iff, divides, isLabel,
      name?]
  · simp [Routine.ofNode, Node.children, Compile.extends?, Compile.nodes, Compile.node,
      condition?, homeOf?, argument_pic, switchBody, hblank, bind,
      Except.bind]
    rfl

end LiveMarkup
