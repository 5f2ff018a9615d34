import LiveMarkup.Proofs.Shape

/-!
# Places in a tree

Some directives are only good in certain places: `@else` in a conditional, `@case` in a switch,
`@break` in a loop or a switch. `Node.Fits` describes the places by what is around a node and what
stands before it, for a tree as a whole. `Node.Placed` says the same for a single pass through the
tree that knows at each node only what came before it; it also covers switches without labels, in
which everything has to be blank although nothing of it precedes a label (`Node.Labelled`).
-/

namespace LiveMarkup

open List Meaning

variable {n : Node}

namespace Node

/-! ## Everywhere in a tree -/

/-- Something can be said of each node below `m`, of what is around it and of what stands before
it. -/
def Everywhere (P : List Node → List Node → Node → Prop) (above : List Node) (m : Node) : Prop :=
  ∀ ⦃path before n⦄, Occurs above m path before n → P path before n

/-- It can be said of siblings that stand behind others, and of all that is below them. -/
def Each (P : List Node → List Node → Node → Prop) (path before ns : List Node) : Prop :=
  ∀ front n rest, ns = front ++ n :: rest → P path (before ++ front) n ∧ Everywhere P path n

lemma everywhere_iff : Everywhere P above m ↔ Each P (m :: above) [] m.children := by
  constructor
  · intro h front n rest hchildren
    refine ⟨h (.child hchildren), fun _ _ _ hoccurs => h (.deeper ?_ hoccurs)⟩
    simp [hchildren]
  · intro h path before n hoccurs
    cases hoccurs with
    | child hchildren => exact (h _ _ _ hchildren).1
    | deeper hk hoccurs =>
      obtain ⟨front, rest, hchildren⟩ := append_of_mem hk
      exact (h _ _ _ hchildren).2 hoccurs

@[simp] lemma each_nil : Each P path before [] := by
  intro front n rest h
  simp at h

@[simp] lemma each_cons : Each P path before (n :: ns) ↔
      (P path before n ∧ Everywhere P path n) ∧ Each P path (before ++ [n]) ns := by
  constructor
  · intro h
    refine ⟨by simpa using h [] n ns rfl, fun front k rest hns => ?_⟩
    simpa using h (n :: front) k rest (by rw [hns, cons_append])
  · rintro ⟨hn, hns⟩ front k rest h
    rcases cons_eq_append_iff.mp h with ⟨rfl, heq⟩ | ⟨front, rfl, heq⟩
    · cases heq
      simpa using hn
    · simpa using hns front k rest heq

lemma everywhere_of_children (h : m.children = []) : Everywhere P above m := by
  rw [everywhere_iff, h]
  exact each_nil

lemma Occurs.children (h : Occurs above m path before n) :
    ∃ k outer rest, path = k :: outer ∧ k.children = before ++ n :: rest := by
  induction h with
  | child hchildren => exact ⟨_, _, _, rfl, hchildren⟩
  | deeper hk h ih => exact ih

variable {root : Node}

lemma Occurs.parent (h : Occurs above m (k :: path) before n) :
    k = m ∧ path = above ∨ ∃ front, Occurs above m path front k := by
  generalize hpath : k :: path = outer at h
  induction h with
  | child hchildren =>
    cases hpath
    exact .inl ⟨rfl, rfl⟩
  | deeper hk h ih =>
    rcases ih hpath with ⟨rfl, rfl⟩ | ⟨front, hfront⟩
    · obtain ⟨front, rest, hchildren⟩ := append_of_mem hk
      exact .inr ⟨front, .child hchildren⟩
    · exact .inr ⟨front, .deeper hk hfront⟩

lemma Occurs.sibling (h : Occurs above m (k :: path) before n)
    (hx : k.children = front ++ x :: rest) : Occurs above m (k :: path) front x := by
  generalize hpath : k :: path = outer at h
  induction h with
  | child hchildren =>
    cases hpath
    exact .child hx
  | deeper hk h ih => exact .deeper hk (ih hpath)

lemma Occurs.inner (h : Occurs above m path before n) (hx : n.children = front ++ x :: rest) :
    Occurs above m (n :: path) front x := by
  induction h with
  | child hchildren => exact .deeper (by simp [hchildren]) (.child hx)
  | deeper hk h ih => exact .deeper hk (ih hx)

/-! ## Places -/

def name? : Node → Option String
  | .directive name _ _ => some name
  | _ => none

def parent? (path : List Node) : Option String :=
  path.head?.bind name?

def catches (n : Node) : Bool :=
  n.name? == some "foreach" || n.name? == some "switch"

/-- The body is rendered on its own, and a break does not get out of it. -/
def detaches : Node → Bool
  | .component _ _ _ => true
  | .directive name _ _ => name == "component" || name == "push"
  | _ => false

def conditionals : List (Option String) :=
  [some "if", some "unless", some "isset", some "empty"]

/-- A node may stand where it does, inside of `path` and behind its siblings `before`. -/
@[mk_iff] structure Fits (path before : List Node) (n : Node) : Prop where
  /-- Conditionals are divided, and not behind the last branch. -/
  divider : divides n = true →
    parent? path ∈ conditionals ∧ ∀ m ∈ before, m.name? ≠ some "else"
  label : isLabel n = true → parent? path = some "switch"
  /-- There is one default at most. -/
  default : n.name? = some "default" → ∀ m ∈ before, m.name? ≠ some "default"
  /-- Only blanks precede the first label. -/
  first : isLabel n = true → (∀ m ∈ before, isLabel m = false) →
    ∀ m ∈ before, m.isBlankText = true
  /-- A break has a loop or a switch to leave, with nothing in between that is rendered on its
  own. -/
  leave : n.name? = some "break" → ∃ inner target outer, path = inner ++ target :: outer ∧
    target.catches = true ∧ ∀ m ∈ inner, m.detaches = false

def Labelled (n : Node) : Prop :=
  n.name? = some "switch" → (∀ m ∈ n.children, isLabel m = false) →
    ∀ m ∈ n.children, m.isBlankText = true

/-! ## Places along a single pass -/

def leavable : List Node → Bool
  | [] => false
  | m :: path => m.catches || !m.detaches && leavable path

lemma leavable_iff : leavable path = true ↔ ∃ inner target outer, path = inner ++ target :: outer ∧
      target.catches = true ∧ ∀ m ∈ inner, m.detaches = false := by
  induction path with
  | nil => simp [leavable]
  | cons m path ih =>
    rw [leavable, Bool.or_eq_true, Bool.and_eq_true, Bool.not_eq_true', ih]
    constructor
    · rintro (hcatches | ⟨hdetaches, inner, target, outer, rfl, htarget, hinner⟩)
      · exact ⟨[], m, path, rfl, hcatches, nofun⟩
      · refine ⟨m :: inner, target, outer, rfl, htarget, ?_⟩
        exact forall_mem_cons.mpr ⟨hdetaches, hinner⟩
    · rintro ⟨inner, target, outer, hpath, htarget, hinner⟩
      cases inner with
      | nil =>
        cases hpath
        exact .inl htarget
      | cons k inner =>
        cases hpath
        obtain ⟨hm, hinner⟩ := forall_mem_cons.mp hinner
        exact .inr ⟨hm, inner, target, outer, rfl, htarget, hinner⟩

/-- The same as `Fits` and `Labelled`, told from the nodes that are not labels: in a switch they
stand behind a label, unless they are blank. -/
@[mk_iff] structure Placed (path before : List Node) (n : Node) : Prop where
  divider : divides n = true →
    parent? path ∈ conditionals ∧ ∀ m ∈ before, m.name? ≠ some "else"
  label : isLabel n = true → parent? path = some "switch"
  default : n.name? = some "default" → ∀ m ∈ before, m.name? ≠ some "default"
  content : isLabel n = false → parent? path = some "switch" →
    (∀ m ∈ before, isLabel m = false) → n.isBlankText = true
  leave : n.name? = some "break" → leavable path = true

/-- A node that may stand in any body. -/
structure Free (path : List Node) (n : Node) : Prop where
  divider : divides n = false
  label : isLabel n = false
  leave : n.name? = some "break" → leavable path = true

def Plain (path : List Node) : Prop :=
  parent? path ∉ conditionals ∧ parent? path ≠ some "switch"

lemma eq_directive_of_name? (h : n.name? = some name) : ∃ args ns, n = .directive name args ns := by
  cases n with
  | directive name' args ns =>
    cases h
    exact ⟨args, ns, rfl⟩
  | root | text | echo | component => cases h

lemma divides_iff : divides n = true ↔ n.name? = some "else" ∨ n.name? = some "elseif" := by
  cases n <;> simp [divides, name?]

lemma isLabel_iff : isLabel n = true ↔ n.name? = some "case" ∨ n.name? = some "default" := by
  cases n <;> simp [isLabel, name?]

lemma isLabel_of_name?_default (h : n.name? = some "default") : isLabel n = true :=
  isLabel_iff.mpr (.inr h)

lemma divides_of_name?_else (h : n.name? = some "else") : divides n = true :=
  divides_iff.mpr (.inl h)

lemma divides_cases (h : divides n = true) :
    (∃ args ns, n = .directive "else" args ns) ∨ ∃ args ns, n = .directive "elseif" args ns :=
  (divides_iff.mp h).imp eq_directive_of_name? eq_directive_of_name?

lemma isLabel_cases (h : isLabel n = true) :
    (∃ args ns, n = .directive "case" args ns) ∨ ∃ args ns, n = .directive "default" args ns :=
  (isLabel_iff.mp h).imp eq_directive_of_name? eq_directive_of_name?

lemma plain_of_name (h : some name ∉ conditionals) (hname : name ≠ "switch") :
    Plain (.directive name args ns :: path) :=
  ⟨h, fun hswitch => hname (Option.some.inj hswitch)⟩

lemma plain_of_name?_eq_none (h : m.name? = none) : Plain (m :: path) := by
  simp [Plain, parent?, h, conditionals]

lemma Free.placed (hn : Free path n)
    (h : parent? path = some "switch" → ∃ m ∈ before, isLabel m = true) :
    Placed path before n where
  divider hdivides := by simp [hn.divider] at hdivides
  label hlabel := by simp [hn.label] at hlabel
  default hname := by simpa [hn.label] using isLabel_of_name?_default hname
  content _ hswitch hbefore := by
    obtain ⟨m, hm, hlabel⟩ := h hswitch
    simp [hbefore m hm] at hlabel
  leave := hn.leave

lemma placed_iff_of_plain (h : Plain path) : Placed path before n ↔ Free path n := by
  refine ⟨fun hn => ⟨?_, ?_, hn.leave⟩, fun hn => hn.placed fun hswitch => absurd hswitch h.2⟩
  · by_contra hdivides
    exact h.1 (hn.divider (by simpa using hdivides)).1
  · by_contra hlabel
    exact h.2 (hn.label (by simpa using hlabel))

lemma placed_iff_of_conditional (hpath : parent? path ∈ conditionals)
    (hdivides : divides n = false) : Placed path before n ↔ Free path n := by
  have hswitch : parent? path ≠ some "switch" := by
    intro h
    rw [h] at hpath
    simp [conditionals] at hpath
  refine ⟨fun hn => ⟨hdivides, ?_, hn.leave⟩, fun hn => hn.placed fun h => absurd h hswitch⟩
  by_contra hlabel
  exact hswitch (hn.label (by simpa using hlabel))

lemma placed_iff_of_divides (hpath : parent? path ∈ conditionals) (hdivides : divides n = true) :
    Placed path before n ↔ ∀ m ∈ before, m.name? ≠ some "else" := by
  refine ⟨fun hn => (hn.divider hdivides).2, fun hbefore => ?_⟩
  refine ⟨fun _ => ⟨hpath, hbefore⟩, ?_, ?_, fun _ hswitch => ?_, ?_⟩
  case refine_3 =>
    rw [hswitch] at hpath
    simp [conditionals] at hpath
  all_goals rcases divides_cases hdivides with ⟨args, ns, rfl⟩ | ⟨args, ns, rfl⟩ <;>
      simp [isLabel, name?]

lemma placed_iff_of_isLabel (hpath : parent? path = some "switch") (hlabel : isLabel n = true) :
    Placed path before n ↔ (n.name? = some "default" → ∀ m ∈ before, m.name? ≠ some "default") := by
  refine ⟨fun hn => hn.default, fun hbefore => ⟨?_, fun _ => hpath, hbefore, ?_, ?_⟩⟩
  all_goals rcases isLabel_cases hlabel with ⟨args, ns, rfl⟩ | ⟨args, ns, rfl⟩ <;>
      simp [isLabel, divides, name?]

lemma placed_iff_of_switch (hpath : parent? path = some "switch") (hlabel : isLabel n = false) :
    Placed path before n ↔
      if ∀ m ∈ before, isLabel m = false then n.isBlankText = true else Free path n := by
  have hdivides : Placed path before n → divides n = false := by
    intro hn
    by_contra hdivides
    have hparent := (hn.divider (by simpa using hdivides)).1
    rw [hpath] at hparent
    simp [conditionals] at hparent
  split
  · rename_i hbefore
    refine ⟨fun hn => hn.content hlabel hpath hbefore, fun hblank => ?_⟩
    cases n with
    | text s => exact ⟨nofun, nofun, nofun, fun _ _ _ => hblank, nofun⟩
    | root | echo | directive | component => cases hblank
  · rename_i hbefore
    refine ⟨fun hn => ⟨hdivides hn, hlabel, hn.leave⟩, fun hn => hn.placed fun _ => ?_⟩
    simpa using hbefore

/-! ## Both are the same -/

/-- When every node fits and every switch has labels, what stands in a switch in front of the first
one is blank. -/
lemma isBlankText_of_fits (hroot : root.name? = none)
    (h : Everywhere (fun path before n => Fits path before n ∧ Labelled n) [] root)
    (hn : Occurs [] root path before n) (hlabel : isLabel n = false)
    (hswitch : parent? path = some "switch") (hbefore : ∀ m ∈ before, isLabel m = false) :
    n.isBlankText = true := by
  obtain ⟨k, outer, rest, rfl, hchildren⟩ := hn.children
  cases hfind : rest.find? isLabel with
  | some m =>
    -- the first label comes later, and this node is one of those that precede it
    obtain ⟨hm, front, back, rfl, hfront⟩ := find?_eq_some_iff_append.mp hfind
    have hchildren' : k.children = (before ++ n :: front) ++ m :: back := by simp [hchildren]
    have hfits := (h (hn.sibling hchildren')).1
    have hnone : ∀ x ∈ n :: front, isLabel x = false :=
      forall_mem_cons.mpr ⟨hlabel, by simpa using hfront⟩
    exact hfits.first hm (forall_mem_append.mpr ⟨hbefore, hnone⟩) n (by simp)
  | none =>
    have hrest : ∀ x ∈ n :: rest, isLabel x = false :=
      forall_mem_cons.mpr ⟨hlabel, by simpa using find?_eq_none.mp hfind⟩
    have hnone : ∀ x ∈ k.children, isLabel x = false := by
      rw [hchildren]
      exact forall_mem_append.mpr ⟨hbefore, hrest⟩
    rcases hn.parent with ⟨rfl, -⟩ | ⟨front, hk⟩
    · rw [parent?] at hswitch
      simp [hroot] at hswitch
    · exact (h hk).2 hswitch hnone n (by simp [hchildren])

lemma everywhere_placed_iff (hroot : root.name? = none) : Everywhere Placed [] root ↔
      Everywhere (fun path before n => Fits path before n ∧ Labelled n) [] root := by
  constructor
  · intro h path before n hn
    have hplaced := h hn
    refine ⟨⟨hplaced.divider, hplaced.label, hplaced.default, ?_, ?_⟩, ?_⟩
    · intro hlabel hbefore m hm
      obtain ⟨front, rest, rfl⟩ := append_of_mem hm
      obtain ⟨k, outer, after, rfl, hchildren⟩ := hn.children
      have hm' := h (hn.sibling (hchildren.trans (append_assoc _ _ _)))
      refine hm'.content (hbefore m hm) (hplaced.label hlabel) fun x hx => ?_
      exact hbefore x (mem_append_left _ hx)
    · exact fun hbreak => leavable_iff.mp (hplaced.leave hbreak)
    · intro hswitch hlabels m hm
      obtain ⟨front, rest, hchildren⟩ := append_of_mem hm
      refine (h (hn.inner hchildren)).content (hlabels m hm) hswitch fun x hx => ?_
      exact hlabels x (hchildren ▸ mem_append_left _ hx)
  · intro h path before n hn
    have hfits := (h hn).1
    exact ⟨hfits.divider, hfits.label, hfits.default, isBlankText_of_fits hroot h hn,
      fun hbreak => leavable_iff.mpr (hfits.leave hbreak)⟩

end Node

end LiveMarkup
