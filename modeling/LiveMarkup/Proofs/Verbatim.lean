import LiveMarkup.Proofs.Confinement
import LiveMarkup.Proofs.Lossless
import LiveMarkup.Proofs.TreePrinting

/-!
# Templates that are shown as they are

A template without echoes, component tags and directives of the language has nothing to say to the
renderer. It may still be full of marks: parentheses, `>`, closing braces, ends of blocks and tags
that were never opened, a lone `@`, and directives that nobody knows, with arguments of any kind.
Each of them takes its own way through the lexer, the tree and the compiler, and all of these ways
lead back to the text that was written, with one exception: arguments that are still open where the
source ends are closed there.
-/

namespace LiveMarkup

open List Compile Node String

/-! ## Marks without a meaning -/

def Compile.knownNames : List String :=
  blockNames ++ siblingNames ++ flagNames ++
    ["json", "class", "style", "click", "model", "yield", "section", "stack", "include", "inject",
      "extends"]

namespace Token

def isEndName (name : String) : Bool :=
  "end".toList.isPrefixOf name.toList

/-- Whether a token means nothing to the renderer, as long as no block is open. -/
def isInert : Token → Bool
  | .echoStart => false
  | .tagOpen _ => false
  | .directive name => isEndName name || !Compile.knownNames.contains name
  | _ => true

/-- Whether a parenthesis in front of these tokens is never closed: at no point have more of them
been closed than opened. -/
def staysOpen (ts : List Token) : Bool :=
  ts.inits.all fun front => front.count .parenEnd ≤ front.count .parenStart

/-- Whether tokens start with a directive whose arguments are never closed. Ends of blocks have no
arguments. -/
def startsUnclosed : List Token → Bool
  | .directive name :: .parenStart :: rest => !isEndName name && staysOpen rest
  | _ => false

/-- Whether the arguments of some directive are never closed. -/
def leavesUnclosed (ts : List Token) : Bool :=
  ts.tails.any startsUnclosed

def closing (ts : List Token) : String :=
  if leavesUnclosed (ts ++ [.eof]) then ")" else ""

lemma closing_nil : closing [] = "" := rfl

/-! ## Counting parentheses -/

/-- Behind `depth` open parentheses and one more, that one is never closed. -/
def Open (depth : Nat) (ts : List Token) : Prop :=
  ∀ front, front <+: ts → front.count .parenEnd ≤ front.count .parenStart + depth

lemma staysOpen_iff : staysOpen ts = true ↔ Open 0 ts := by
  simp [staysOpen, Open, mem_inits]

lemma open_nil (depth : Nat) : Open depth [] := by
  intro front hfront
  rw [prefix_nil.mp hfront]
  simp

lemma open_cons (h : Open depth' ts)
    (hcount : [t].count .parenEnd + depth' ≤ [t].count .parenStart + depth) :
    Open depth (t :: ts) := by
  intro front hfront
  rcases prefix_cons_iff.mp hfront with rfl | ⟨front', rfl, hfront'⟩
  · simp
  · have hrest := h front' hfront'
    rw [← singleton_append, count_append, count_append]
    omega

/-- What is read between a parenthesis and the one that closes it, `depth` of them being open: all
of them are closed in it. -/
structure Encloses (depth : Nat) (inner : List Token) : Prop where
  stays : Open depth inner
  closes : inner.count .parenEnd = inner.count .parenStart + depth

lemma encloses_cons {inner : List Token} (h : Encloses depth' inner)
    (hcount : [t].count .parenEnd + depth' = [t].count .parenStart + depth) :
    Encloses depth (t :: inner) where
  stays := open_cons h.stays (Nat.le_of_eq hcount)
  closes := by
    have hrest := h.closes
    rw [← singleton_append, count_append, count_append]
    omega

lemma leavesUnclosed_iff : leavesUnclosed ts = true ↔ ∃ name rest,
    .directive name :: .parenStart :: rest <:+ ts ∧ isEndName name = false ∧ Open 0 rest := by
  simp only [leavesUnclosed, any_eq_true, mem_tails]
  constructor
  · rintro ⟨s, hs, hstarts⟩
    unfold startsUnclosed at hstarts
    split at hstarts
    · rename_i name rest
      simp only [Bool.and_eq_true, Bool.not_eq_true', staysOpen_iff] at hstarts
      exact ⟨name, rest, hs, hstarts⟩
    · cases hstarts
  · rintro ⟨name, rest, hs, hname, hrest⟩
    exact ⟨_, hs, by simp [startsUnclosed, hname, staysOpen_iff.mpr hrest]⟩

lemma leavesUnclosed_cons (t : Token) (ts : List Token) :
    leavesUnclosed (t :: ts) = (startsUnclosed (t :: ts) || leavesUnclosed ts) := by
  simp [leavesUnclosed]

lemma closing_cons (h : startsUnclosed (t :: (ts ++ [.eof])) = false) :
    closing (t :: ts) = closing ts := by
  rw [closing, cons_append, leavesUnclosed_cons, h, Bool.false_or, closing]

/-- Arguments that are closed leave nothing open, whatever directives there are in them. -/
lemma leavesUnclosed_of_encloses {inner : List Token} (h : Encloses 0 inner) (name : String)
    (rest : List Token) :
    leavesUnclosed (.directive name :: .parenStart :: (inner ++ .parenEnd :: rest)) =
      leavesUnclosed rest := by
  have hcloses : ∀ {front : List Token}, ¬ Open 0 (inner ++ .parenEnd :: front) := by
    intro front hopen
    have hcount := hopen (inner ++ [.parenEnd]) ⟨front, by simp⟩
    have hinner := h.closes
    simp only [count_append, count_singleton_self] at hcount
    rw [count_cons_of_ne (by decide)] at hcount
    simp only [count_nil] at hcount
    omega
  rw [Bool.eq_iff_iff, leavesUnclosed_iff, leavesUnclosed_iff]
  constructor
  · rintro ⟨name', rest', hsuffix, hname, hopen⟩
    refine ⟨name', rest', ?_, hname, hopen⟩
    rcases suffix_cons_iff.mp hsuffix with heq | hsuffix
    · -- the directive itself: its arguments are closed
      cases heq
      exact absurd hopen hcloses
    have hsuffix := (suffix_cons_iff.mp hsuffix).resolve_left (by simp)
    obtain ⟨front, hfront⟩ := hsuffix
    rcases append_eq_append_iff.mp hfront with ⟨within, hinner, heq⟩ | ⟨between, -, heq⟩
    · match within with
      | [] => simp at heq
      | [t] => simp at heq
      | t :: u :: within =>
        -- a directive inside the arguments: its own arguments end before theirs do
        simp only [cons_append, cons.injEq] at heq
        obtain ⟨rfl, rfl, rfl⟩ := heq
        have hbefore := h.stays front ⟨_, hinner.symm⟩
        have hbehind := hopen within ⟨_, rfl⟩
        have hcount := h.closes
        rw [hinner] at hcount
        simp only [count_append, count_cons_self, count_cons_of_ne, ne_eq,
          reduceCtorEq, not_false_eq_true] at hcount
        omega
    · cases between with
      | nil => simp at heq
      | cons t between => exact ⟨between, (cons.inj heq).2.symm⟩
  · rintro ⟨name', rest', hsuffix, hname, hopen⟩
    refine ⟨name', rest', hsuffix.trans ?_, hname, hopen⟩
    exact ⟨.directive name :: .parenStart :: (inner ++ [.parenEnd]), by simp⟩

end Token

namespace Node

open Token

/-! ## Reading arguments -/

lemma sourceOf_cons (t : Token) (ts : List Token) :
    sourceOf (t :: ts) = t.source ++ sourceOf ts := by
  simp [sourceOf, join_cons]

lemma sourceOf_append (ts us : List Token) : sourceOf (ts ++ us) = sourceOf ts ++ sourceOf us := by
  simp [sourceOf, join_append]

/-- Arguments reach up to the parenthesis that closes them, or to the end of the source. -/
lemma splitParens_cases (heof : eof ∉ ts) (depth : Nat) :
    (∃ inner rest, ts = inner ++ .parenEnd :: rest ∧ Encloses depth inner ∧
      splitParens depth (ts ++ [.eof]) = (sourceOf inner, rest ++ [.eof])) ∨
    (Open depth (ts ++ [.eof]) ∧ splitParens depth (ts ++ [.eof]) = (sourceOf ts, [])) := by
  -- the number of open parentheses follows the tokens up and down
  induction ts generalizing depth with
  | nil => exact .inr ⟨open_cons (open_nil depth) (by simp), by simp [splitParens, sourceOf]⟩
  | cons t ts ih =>
    rw [mem_cons, not_or] at heof
    obtain ⟨hne, heof⟩ := heof
    by_cases hopen : t = .parenStart
    · subst hopen
      have hcount : [parenStart].count .parenEnd + (depth + 1) =
          [parenStart].count .parenStart + depth := by
        show 0 + (depth + 1) = 1 + depth
        omega
      rw [cons_append, splitParens, sourceOf_cons]
      rcases ih heof (depth + 1) with ⟨inner, rest, rfl, hinner, hsplit⟩ | ⟨hopen, hsplit⟩
      · refine .inl ⟨.parenStart :: inner, rest, rfl, encloses_cons hinner hcount, ?_⟩
        rw [hsplit, sourceOf_cons]
        rfl
      · refine .inr ⟨open_cons hopen (Nat.le_of_eq hcount), ?_⟩
        rw [hsplit]
        rfl
    by_cases hclose : t = .parenEnd
    · subst hclose
      cases depth with
      | zero => exact .inl ⟨[], ts, rfl, ⟨open_nil 0, rfl⟩, by simp [splitParens, sourceOf]⟩
      | succ depth =>
        have hcount : [parenEnd].count .parenEnd + depth =
            [parenEnd].count .parenStart + (depth + 1) := by
          show 1 + depth = 0 + (depth + 1)
          omega
        rw [cons_append, splitParens, sourceOf_cons]
        rcases ih heof depth with ⟨inner, rest, rfl, hinner, hsplit⟩ | ⟨hopen, hsplit⟩
        · refine .inl ⟨.parenEnd :: inner, rest, rfl, encloses_cons hinner hcount, ?_⟩
          rw [hsplit, sourceOf_cons]
          rfl
        · refine .inr ⟨open_cons hopen (Nat.le_of_eq hcount), ?_⟩
          rw [hsplit]
          rfl
    · have hcount : [t].count .parenEnd + depth = [t].count .parenStart + depth := by
        simp [hopen, hclose]
      rw [cons_append, splitParens_of_ne (Ne.symm hne) hopen hclose, sourceOf_cons]
      rcases ih heof depth with ⟨inner, rest, rfl, hinner, hsplit⟩ | ⟨hopen, hsplit⟩
      · refine .inl ⟨t :: inner, rest, rfl, encloses_cons hinner hcount, ?_⟩
        rw [hsplit, sourceOf_cons]
      · exact .inr ⟨open_cons hopen (Nat.le_of_eq hcount), by rw [hsplit]⟩

/-- A directive has no arguments, arguments that are closed, or arguments that never are. -/
lemma splitArgs_cases (heof : eof ∉ ts) :
    (ts.head? ≠ some .parenStart ∧ splitArgs (ts ++ [.eof]) = (none, ts ++ [.eof])) ∨
    (∃ inner rest, ts = .parenStart :: (inner ++ .parenEnd :: rest) ∧ Encloses 0 inner ∧
      splitArgs (ts ++ [.eof]) = (some (sourceOf inner), rest ++ [.eof])) ∨
    ∃ rest, ts = .parenStart :: rest ∧ Open 0 (rest ++ [.eof]) ∧
      splitArgs (ts ++ [.eof]) = (some (sourceOf rest), []) := by
  by_cases hhead : ts.head? = some .parenStart
  · obtain ⟨rest, rfl⟩ := head?_eq_some_iff.mp hhead
    have heof' : eof ∉ rest := fun hmem => heof (mem_cons_of_mem _ hmem)
    have hargs : splitArgs (.parenStart :: rest ++ [.eof]) =
        (some (splitParens 0 (rest ++ [.eof])).1, (splitParens 0 (rest ++ [.eof])).2) := rfl
    rcases splitParens_cases heof' 0 with ⟨inner, rest', rfl, hinner, hsplit⟩ | ⟨hopen, hsplit⟩
    · exact .inr (.inl ⟨inner, rest', rfl, hinner, by rw [hargs, hsplit]⟩)
    · exact .inr (.inr ⟨rest, rfl, hopen, by rw [hargs, hsplit]⟩)
  · refine .inl ⟨hhead, ?_⟩
    unfold splitArgs
    split
    · rename_i heq
      cases ts <;> simp_all
    · rfl

lemma build_stray_end (hend : isEndName name = true)
    (hcloses : b.closes (name.toList.drop 3) = false) (ts : List Token) :
    build b (.directive name :: ts) = build (b.addText ("@" ++ name)) ts := by
  unfold isEndName at hend
  rw [build, if_pos hend, hcloses]
  rfl

lemma build_name (hend : isEndName name = false) (ts : List Token) :
    build b (.directive name :: ts) =
      build (b.directive name (splitArgs ts).1) (splitArgs ts).2 := by
  unfold isEndName at hend
  rw [build, hend]
  rfl

/-! ## Literal nodes -/

/-- Nodes that are shown as they were written: text, and directives that nobody knows. -/
def isLiteral : Node → Bool
  | .text _ => true
  | .directive name _ ns => !Compile.knownNames.contains name && ns.isEmpty
  | _ => false

lemma printAll_append (ns ms : List Node) : printAll (ns ++ ms) = printAll ns ++ printAll ms := by
  induction ns with
  | nil => simp [printAll]
  | cons n ns ih => rw [List.cons_append, printAll, ih, printAll, String.append_assoc]

lemma printAll_addText (ns : List Node) (s : String) :
    printAll (addText ns s) = printAll ns ++ s := by
  unfold addText
  split
  · rename_i hempty
    rw [isEmpty_iff.mp hempty, append_empty]
  · split
    · rename_i t ht
      -- the text joins the one before it
      obtain ⟨front, rfl⟩ := getLast?_eq_some_iff.mp ht
      simp [printAll_append, printAll, print, String.append_assoc]
    · simp [printAll_append, printAll, print]

lemma mem_addText (h : n ∈ addText ns s) : n ∈ ns ∨ ∃ t, n = .text t := by
  unfold addText at h
  split at h
  · exact .inl h
  · split at h
    · rcases mem_append.mp h with h | h
      · exact .inl (mem_of_mem_dropLast h)
      · exact .inr ⟨_, mem_singleton.mp h⟩
    · rcases mem_append.mp h with h | h
      · exact .inl h
      · exact .inr ⟨_, mem_singleton.mp h⟩

/-- Literal nodes, the source of which is known. -/
structure Spells (ns : List Node) (s : String) : Prop where
  literal : ∀ n ∈ ns, n.isLiteral = true
  spelled : printAll ns = s

lemma Spells.addText (h : Spells ns s) (t : String) : Spells (addText ns t) (s ++ t) where
  literal := by
    intro n hn
    rcases mem_addText hn with hn | ⟨t, rfl⟩
    · exact h.literal n hn
    · rfl
  spelled := by rw [printAll_addText, h.spelled]

lemma opensBlock_of_unknown (h : knownNames.contains name = false)
    (args : Option String) : opensBlock name args = false := by
  have hblock : name ∉ blockNames ∧ name ≠ "section" := by
    simp only [knownNames, contains_eq_mem, decide_eq_false_iff_not, mem_append, not_or] at h
    refine ⟨h.1.1.1, ?_⟩
    rintro rfl
    simp at h
  simp [opensBlock, isBlock, hblock.1, hblock.2]

lemma Spells.directive (h : Spells ns s) (hname : knownNames.contains name = false)
    (args : Option String) :
    Spells (ns ++ [.directive name args []]) (s ++ ("@" ++ name ++ printArgs args)) where
  literal := by
    intro n hn
    rcases mem_append.mp hn with hn | hn
    · exact h.literal n hn
    · rw [mem_singleton.mp hn, isLiteral, hname]
      rfl
  spelled := by
    rw [printAll_append, h.spelled]
    simp [printAll, print, opensBlock_of_unknown hname]

/-- Behind literal nodes that spell `s`, reading some of the tokens adds to these nodes, and what is
to be spelled in the end stays the same. -/
def ReadsOn (ns : List Node) (s : String) (t : Token) (ts : List Token) : Prop :=
  ∃ ns' s' rest, rest <:+ ts ∧ Spells ns' s' ∧
    build { top := ns } (t :: (ts ++ [.eof])) = build { top := ns' } (rest ++ [.eof]) ∧
    s' ++ sourceOf rest ++ closing rest = s ++ sourceOf (t :: ts) ++ closing (t :: ts)

section Steps

variable (h : Spells ns s)

include h

lemma readsOn_text {t : Token} (hbuild : build { top := ns } (t :: (ts ++ [.eof])) =
      build { top := addText ns t.source } (ts ++ [.eof]))
    (hstarts : startsUnclosed (t :: (ts ++ [.eof])) = false) : ReadsOn ns s t ts := by
  refine ⟨_, _, ts, suffix_refl _, h.addText t.source, hbuild, ?_⟩
  rw [closing_cons hstarts, sourceOf_cons, ← String.append_assoc]

lemma readsOn_directive (hend : isEndName name = false) (hname : knownNames.contains name = false)
    (heof : eof ∉ ts) : ReadsOn ns s (.directive name) ts := by
  rw [ReadsOn, build_name hend, Builder.directive_of_single (opensBlock_of_unknown hname _)]
  rcases splitArgs_cases heof with ⟨hhead, hargs⟩ | ⟨inner, rest, rfl, hinner, hargs⟩ |
    ⟨rest, rfl, hopen, hargs⟩
  · refine ⟨_, _, ts, suffix_refl _, h.directive hname none, by rw [hargs]; rfl, ?_⟩
    have hstarts : startsUnclosed (.directive name :: (ts ++ [.eof])) = false := by
      cases ts <;> simp_all [startsUnclosed]
    simp [closing_cons hstarts, sourceOf_cons, Token.source, printArgs, String.append_assoc]
  · refine ⟨_, _, rest, ?_, h.directive hname (some (sourceOf inner)), by rw [hargs]; rfl, ?_⟩
    · exact ⟨.parenStart :: (inner ++ [.parenEnd]), by simp⟩
    · have hclosing : closing (.directive name :: .parenStart :: (inner ++ .parenEnd :: rest)) =
          closing rest := by
        rw [closing, closing, List.cons_append, List.cons_append, List.append_assoc,
          cons_append, leavesUnclosed_of_encloses hinner]
      simp [hclosing, sourceOf_cons, sourceOf_append, source, printArgs, String.append_assoc]
  · -- the arguments go on to the end of the source, where they are closed
    have hclosing : closing (.directive name :: .parenStart :: rest) = ")" :=
      if_pos (leavesUnclosed_iff.mpr ⟨name, _, suffix_refl _, hend, hopen⟩)
    refine ⟨_, _, [], nil_suffix, h.directive hname (some (sourceOf rest)), ?_, ?_⟩
    · rw [hargs, nil_append, build, build]
      rfl
    · rw [hclosing]
      simp [sourceOf, Token.source, printArgs, String.append_assoc, String.join_cons, closing_nil]

lemma readsOn_of_isInert (ht : t.isInert = true) (heof : eof ∉ t :: ts) : ReadsOn ns s t ts := by
  rw [mem_cons, not_or] at heof
  cases t with
  | eof => exact absurd rfl heof.1
  | echoStart | tagOpen name => cases ht
  | text t | echoEnd | parenStart | parenEnd | tagClose | tagEnd name =>
    exact readsOn_text h (by rw [build]; rfl) rfl
  | directive name =>
    cases hend : isEndName name with
    | true =>
      -- no block is open that it could end
      refine readsOn_text h (build_stray_end hend rfl _) ?_
      unfold startsUnclosed
      split <;> simp_all
    | false =>
      refine readsOn_directive h hend ?_ heof.2
      simpa [isInert, hend] using ht

end Steps

lemma build_inert (hinert : ∀ t ∈ ts, t.isInert = true) (heof : eof ∉ ts)
    (h : Spells ns s) : ∃ ns', build { top := ns } (ts ++ [.eof]) = { top := ns' } ∧
      Spells ns' (s ++ sourceOf ts ++ closing ts) := by
  -- arguments are read at once, so the rest may be much shorter
  induction hn : ts.length using Nat.strong_induction_on generalizing ts ns s with
  | _ n ih =>
  subst hn
  cases ts with
  | nil =>
    refine ⟨ns, by rw [nil_append, build], ?_⟩
    simpa [sourceOf, closing_nil] using h
  | cons t ts =>
    obtain ⟨ns', s', rest, hrest, hspells, hbuild, hs⟩ :=
      readsOn_of_isInert h (hinert t (.head _)) heof
    have hmem : ∀ u ∈ rest, u ∈ t :: ts := fun u hu => .tail _ (hrest.subset hu)
    have hlength : rest.length < (t :: ts).length := Nat.lt_succ_of_le hrest.length_le
    obtain ⟨ms, hms, hfinal⟩ := ih rest.length hlength (fun u hu => hinert u (hmem u hu))
      (fun hu => heof (hmem _ hu)) hspells rfl
    rw [cons_append, hbuild, ← hs]
    exact ⟨ms, hms, hfinal⟩

end Node

/-! ## Showing literal nodes -/

namespace Compile

lemma isSimple_of_unknown (h : knownNames.contains name = false) : IsSimple name := by
  simp only [knownNames, blockNames, siblingNames, flagNames, contains_eq_mem,
    decide_eq_false_iff_not, cons_append, nil_append, mem_cons, not_mem_nil,
    or_false, not_or] at h
  refine ⟨?_, ?_, ?_⟩
  · unfold condition?
    split <;> simp_all
  · unfold homeOf?
    split <;> simp_all
  · simp_all [bodyNames]

lemma simple_of_unknown (h : knownNames.contains name = false) (args : Option String) :
    simple name args = .ok (.text ("@" ++ name ++ printArgs args)) := by
  have hflag : flagNames.contains name = false := by
    simp_all [knownNames]
  simp only [knownNames, blockNames, siblingNames, contains_eq_mem,
    decide_eq_false_iff_not, mem_append, mem_cons, not_mem_nil, or_false,
    not_or] at h
  unfold simple
  split
  case h_10 =>
    rw [hflag]
    cases args <;> simp [Node.printArgs, pure, Except.pure, String.append_assoc]
  all_goals simp_all

lemma node_of_isLiteral (h : n.isLiteral = true) (b : Bool) : node b n = .ok [.text n.print] := by
  cases n with
  | text s => rfl
  | directive name args ns =>
    simp only [Node.isLiteral, Bool.and_eq_true, Bool.not_eq_true', List.isEmpty_iff] at h
    obtain ⟨hname, rfl⟩ := h
    rw [node_of_isSimple (isSimple_of_unknown hname), simple_of_unknown hname, print,
      opensBlock_of_unknown hname]
    simp [bind, Except.bind, pure, Except.pure]
  | root | echo | component => cases h

lemma nodes_of_isLiteral (h : ∀ n ∈ ns, n.isLiteral = true) (b : Bool) :
    nodes b ns = .ok (ns.map fun n => .text n.print) := by
  induction ns with
  | nil => rfl
  | cons n ns ih =>
    obtain ⟨hn, hns⟩ := forall_mem_cons.mp h
    rw [nodes, node_of_isLiteral hn, ih hns]
    rfl

lemma extends?_of_isLiteral (h : ∀ n ∈ ns, n.isLiteral = true) : extends? ns = none := by
  rw [extends?, findSome?_eq_none_iff]
  intro n hn
  have hliteral := h n hn
  split
  · cases hliteral
  · rfl

end Compile

lemma Render.run_texts (host : Host S H) (scope : Scope) (out : String) (ns : List Node) :
    Render.run host scope 0 out (ns.map fun n => .text n.print) =
      pure (out ++ printAll ns, .onward) := by
  induction ns generalizing out with
  | nil => simp [Render.run, printAll]
  | cons n ns ih =>
    show Render.run host scope 0 (out ++ n.print) _ = _
    rw [ih, Node.printAll, String.append_assoc]

/-- A template without echoes, component tags and directives of the language compiles, and whatever
the scope and the host, rendering it does nothing but return its source, with one parenthesis added
if the arguments of some directive are never closed. -/
theorem Routine.inert_template_renders_verbatim {source : String}
    (h : ∀ t ∈ Token.tokenize source, t.isInert = true) : ∃ r, Routine.compile source = .ok r ∧
      ∀ {S : Signature} {H : Type} (host : Host S H) (scope : Scope),
        r.render host scope =
          pure (source ++ if Token.leavesUnclosed (Token.tokenize source) then ")" else "") := by
  obtain ⟨ts, hscan, hts, hsource⟩ := Token.scan_eq_concat source.toList
  have htokens : Token.tokenize source = ts ++ [.eof] := (Token.tokenize_eq_scan source).trans hscan
  have hspelled : sourceOf ts = source := by
    rw [← toList_inj, toList_sourceOf, hsource]
  rw [htokens] at h
  obtain ⟨ns, hbuild, hspells⟩ := build_inert (fun t ht => h t (mem_append_left _ ht))
    (fun heof => (hts _ heof).1 rfl) (⟨nofun, rfl⟩ : Spells [] "")
  have hparse : parse source = .root ns := by
    rw [parse, htokens, hbuild]
    show root (Node.Builder.finish [] ns) = _
    rw [Node.Builder.finish]
  refine ⟨⟨ns.map fun n => .text n.print⟩, ?_, fun host scope => ?_⟩
  · have hextends : extends? (root ns).children = none :=
      extends?_of_isLiteral hspells.literal
    rw [Routine.compile, hparse, Routine.ofNode_of_extends?_eq_none hextends]
    show nodes false ns >>= _ = _
    rw [nodes_of_isLiteral hspells.literal]
    rfl
  · rw [Routine.render, Render.run_texts, htokens]
    have hprint := hspells.spelled
    rw [hspelled, empty_append] at hprint
    rw [pure_bind, hprint, empty_append]
    rfl

/-- Marks of every kind that mean nothing where they stand, and a directive inside the arguments of
another one, neither of which is ever closed. -/
def scribble : String :=
  "grün) (a\x7d\x7d > </x-b> me@ @endif(@csrf @note(1, (2) @page(3)) @draft(to: @all(x"

theorem Routine.inert_template_renders_verbatim_scribble :
    (∀ t ∈ Token.tokenize scribble, t.isInert = true) ∧
    Token.leavesUnclosed (Token.tokenize scribble) = true ∧
    ∃ r, Routine.compile scribble = .ok r ∧
      ∀ {S : Signature} {H : Type} (host : Host S H) (scope : Scope),
        r.render host scope = pure (scribble ++ ")") := by
  have hinert : ∀ t ∈ Token.tokenize scribble, t.isInert = true := by decide +kernel
  have hunclosed : Token.leavesUnclosed (Token.tokenize scribble) = true := by decide +kernel
  obtain ⟨r, hcompile, hrender⟩ := Routine.inert_template_renders_verbatim hinert
  refine ⟨hinert, hunclosed, r, hcompile, fun host scope => ?_⟩
  rw [hrender, hunclosed]
  rfl

end LiveMarkup
