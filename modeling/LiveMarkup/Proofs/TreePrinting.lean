import LiveMarkup.Proofs.Bytes

/-!
# Printing trees

A tree is printed as the source that one would write for it: `{{ e }}`, `@name(args)`,
`@name … @endname`, `<x-name attrs> … </x-name>`. Reading the printed source gives the tree back,
provided that the tree is in normal form: printing runs nothing together that the lexer could not
take apart, such as two texts, a directive and a letter, or a brace and the end of an echo.

The argument goes node by node. What has been read so far is a `Builder`, what is still to be read
is arbitrary except that it `Breaks` whatever stands at the end of the node; reading the node then
adds exactly that node to the builder.
-/

namespace LiveMarkup

open List Text Token String
open Bool (and_eq_true)
open String (ofList toList_append)
open Token (isTag scan)

variable {rest : List Char} {b : Builder} {before : Edge} {name : String} {ts : List Token}
  {args : Option String} {t : Token} {depth : Nat}

namespace Node

/-! ## Printing -/

/-- Whether a directive is printed with children and an end. -/
def opensBlock (name : String) (args : Option String) : Bool :=
  !siblingNames.contains name && isBlock name args

def printArgs : Option String → String
  | none => ""
  | some args => "(" ++ args ++ ")"

def printAttrs (attrs : String) : String :=
  if attrs.isEmpty then "" else " " ++ attrs

mutual

def print : Node → String
  | .root ns => printAll ns
  | .text s => s
  | .echo e => "\x7b\x7b " ++ e ++ " \x7d\x7d"
  | .directive name args ns =>
    "@" ++ name ++ printArgs args ++
      if opensBlock name args then printAll ns ++ "@end" ++ name else ""
  | .component tag attrs ns =>
    "<" ++ tag ++ printAttrs attrs ++ ">" ++ printAll ns ++ "</" ++ tag ++ ">"

def printAll : List Node → String
  | [] => ""
  | n :: ns => print n ++ printAll ns

end

/-! ## Normal form -/

/-- What stands directly before a node, as far as it matters: a text, the name of a directive that
nothing closes off, or anything else. -/
inductive Edge where
  | free
  | text
  | name
deriving DecidableEq

def edge : Node → Edge
  | .root _ => .free
  | .text _ => .text
  | .echo _ => .free
  | .directive name args _ => if opensBlock name args || args.isNone then .name else .free
  | .component _ _ _ => .free

/-- Whether every parenthesis has its partner, `depth` of them being open before. -/
def balanced (depth : Nat) : List Char → Bool
  | [] => depth == 0
  | '(' :: cs => balanced (depth + 1) cs
  | ')' :: cs =>
    match depth with
    | 0 => false
    | d + 1 => balanced d cs
  | _ :: cs => balanced depth cs

/-- Texts are not empty, have no marks in them, do not follow another text and do not continue a
name. -/
def isNormalText (before : Edge) (s : String) : Bool :=
  before != .text && s != "" && s.toList.all isPlain &&
    (before != .name || s.toList.head?.all fun c => !Token.isDirectiveChar c)

/-- Echoes are trimmed and do not hold the mark that ends them. -/
def isNormalEcho (e : String) : Bool :=
  Text.trim e == e && !decide (['\x7d', '\x7d'] <:+: e.toList)

def isNormalDirective (name : String) (args : Option String) : Bool :=
  name != "" && name.toList.all isDirectiveChar && !"end".toList.isPrefixOf name.toList &&
    args.all fun a => balanced 0 a.toList

def isNormalTag (tag attrs : String) : Bool :=
  isTag tag && Text.trim attrs == attrs && !attrs.toList.contains '<' &&
    !attrs.toList.contains '>' && attrs.toList.getLast? != some '/'

mutual

def isNormal (before : Edge) : Node → Bool
  | .root _ => false
  | .text s => isNormalText before s
  | .echo e => isNormalEcho e
  | .directive name args ns =>
    isNormalDirective name args &&
      if opensBlock name args then areNormal (if args.isNone then .name else .free) ns
      else ns.isEmpty
  | .component tag attrs ns => isNormalTag tag attrs && areNormal .free ns

def areNormal (before : Edge) : List Node → Bool
  | [] => true
  | n :: ns => isNormal before n && areNormal n.edge ns

end

/-! ## What may follow -/

/-- What may be read behind an edge without becoming part of it. -/
def Breaks : Edge → List Char → Prop
  | .free, _ => True
  | .text, rest => Ends rest
  | .name, rest => ∀ c ∈ rest.head?, isDirectiveChar c = false ∧ c ≠ '('

/-- The places where siblings end: the end of the source, of a block or of a component. -/
inductive Stops : List Char → Prop
  | source : Stops []
  | block (rest : List Char) : Stops ('@' :: rest)
  | component (rest : List Char) : Stops ('<' :: '/' :: 'x' :: '-' :: rest)

lemma Stops.breaks (h : Stops rest) (e : Edge) : Breaks e rest := by
  cases e with
  | free => trivial
  | text =>
    cases h with
    | source => exact .inl rfl
    | block rest | component rest => exact .inr rfl
  | name =>
    intro c hc
    cases h with
    | source => simp at hc
    | block rest =>
      obtain rfl : '@' = c := by simpa using hc
      decide
    | component rest =>
      obtain rfl : '<' = c := by simpa using hc
      decide

lemma breaks_mark (hm : markerAt (c :: cs) = true) (hc : c = '@' ∨ c = '<' ∨ c = '\x7b')
    (e : Edge) : Breaks e (c :: cs) := by
  cases e with
  | free => trivial
  | text => exact .inr hm
  | name =>
    intro d hd
    obtain rfl : c = d := by simpa using hd
    obtain rfl | rfl | rfl := hc <;> decide

lemma breaks_print (h : isNormal before n = true) (rest : List Char) :
    Breaks before (n.print.toList ++ rest) := by
  cases n with
  | root ns => simp [isNormal] at h
  | text s =>
    simp only [isNormal, isNormalText, and_eq_true, bne_iff_ne, Bool.or_eq_true, all_eq_true] at h
    obtain ⟨⟨⟨htext, hs⟩, hplain⟩, hname⟩ := h
    cases before with
    | free => trivial
    | text => exact absurd rfl htext
    | name =>
      cases hcs : s.toList with
      | nil => exact absurd (toList_eq_nil_iff.mp hcs) hs
      | cons c cs =>
        intro d hd
        obtain rfl : c = d := by simpa [print, hcs] using hd
        -- a plain character opens no arguments, and a normal text continues no name
        have hd' := isPlain_iff.mp (hplain c (by simp [hcs]))
        simp_all
  | echo e =>
    simp only [print, toList_append, List.append_assoc]
    exact breaks_mark rfl (.inr (.inr rfl)) _
  | directive name args ns =>
    simp only [print, toList_append, List.append_assoc]
    exact breaks_mark rfl (.inl rfl) _
  | component tag attrs ns =>
    simp only [isNormal, isNormalTag, and_eq_true] at h
    obtain ⟨cs, hcs, -⟩ := isTag_iff.mp h.1.1.1.1.1
    simp only [print, toList_append, List.append_assoc, hcs]
    exact breaks_mark rfl (.inr (.inl rfl)) _

lemma breaks_printAll (h : areNormal before ns = true) (hrest : Stops rest) :
    Breaks before ((printAll ns).toList ++ rest) := by
  cases ns with
  | nil => simpa [printAll] using hrest.breaks before
  | cons n ns =>
    rw [areNormal, and_eq_true] at h
    rw [printAll, toList_append, List.append_assoc]
    exact breaks_print h.1 _

/-! ## What has been read -/

namespace Builder

section

variable (b)

def nodes : List Node :=
  match b.frames with
  | [] => b.top
  | fr :: _ => fr.children

/-- The last node that was read does end in `before`, if it is text. -/
def Fits (before : Edge) : Prop :=
  ∀ s, b.nodes.getLast? = some (.text s) → before = .text

def addAll (ns : List Node) : Builder :=
  b.modify (· ++ ns)

lemma nodes_modify (f : List Node → List Node) : (b.modify f).nodes = f b.nodes := by
  obtain ⟨frames, top⟩ := b
  cases frames <;> rfl

lemma modify_modify (f g : List Node → List Node) :
    (b.modify f).modify g = b.modify fun ns => g (f ns) := by
  obtain ⟨frames, top⟩ := b
  cases frames <;> rfl

lemma addAll_nil : b.addAll [] = b := by
  obtain ⟨frames, top⟩ := b
  cases frames <;> simp [addAll, modify]

lemma addAll_add (n : Node) (ns : List Node) : (b.add n).addAll ns = b.addAll (n :: ns) := by
  simp [add, addAll, modify_modify]

lemma fits_add (n : Node) : (b.add n).Fits n.edge := by
  intro s hs
  rw [add, nodes_modify, getLast?_concat] at hs
  obtain rfl : n = .text s := by simpa using hs
  rfl

lemma fits_openBlock (o : Opener) (e : Edge) : (b.openBlock o).Fits e := by
  intro s hs
  simp [openBlock, nodes] at hs

end

lemma addText_of_fits (hfits : b.Fits before) (hbefore : before ≠ .text) (hs : s ≠ "") :
    b.addText s = b.add (.text s) := by
  have hlast : Node.addText b.nodes s = b.nodes ++ [.text s] := by
    unfold Node.addText
    split
    · simp_all
    · split
      · rename_i t ht
        exact absurd (hfits t ht) hbefore
      · rfl
  obtain ⟨frames, top⟩ := b
  cases frames with
  | nil | cons fr rest => simpa [Builder.addText, add, modify, nodes] using hlast

lemma directive_of_single (h : opensBlock name args = false) :
    b.directive name args = b.add (.directive name args []) := by
  rw [opensBlock] at h
  rw [directive, h]
  rfl

lemma directive_of_block (h : opensBlock name args = true) :
    b.directive name args = b.openBlock (.directive name args) := by
  rw [opensBlock] at h
  rw [directive, h]
  rfl

lemma closeBlock_addAll (b : Builder) (o : Opener) (ns : List Node) :
    ((b.openBlock o).addAll ns).closeBlock = b.add (Frame.close ⟨o, ns⟩) := by
  simp [openBlock, addAll, modify, closeBlock]

lemma closes_addAll (b : Builder) (name : String) (args : Option String) (ns : List Node) :
    ((b.openBlock (.directive name args)).addAll ns).closes name.toList = true := by
  simp [openBlock, addAll, modify, closes]

lemma closesTag_addAll (b : Builder) (tag attrs : String) (ns : List Node) :
    ((b.openBlock (.component tag attrs)).addAll ns).closesTag tag = true := by
  simp [openBlock, addAll, modify, closesTag]

end Builder

/-! ## Regions

Echoes, arguments and attributes are read as tokens and become text again. -/

lemma toList_sourceOf (ts : List Token) : (sourceOf ts).toList = ts.flatMap (·.source.toList) := by
  rw [sourceOf, toList_join, flatMap_map]

lemma splitAtToken_append {rest : List Token} (hts : ∀ u ∈ ts, stop u = false)
    (ht : stop t = true) : splitAtToken stop (ts ++ t :: rest) = (sourceOf ts, rest) := by
  have hgo : ∀ u ∈ ts, (!stop u) = true := fun u hu => by simp [hts u hu]
  have hstop : ∀ u ∈ (t :: rest).head?, (!stop u) = false := by simp [ht]
  obtain ⟨htake, hdrop⟩ := takeWhile_append_of_all hgo hstop
  rw [splitAtToken, htake, hdrop]
  rfl

lemma infix_of_mem (h : t ∈ ts) : t.source.toList <:+: ts.flatMap (·.source.toList) := by
  obtain ⟨front, back, rfl⟩ := append_of_mem h
  exact ⟨front.flatMap (·.source.toList), back.flatMap (·.source.toList), by simp⟩

lemma splitAtToken_region (h : Sealed region mark) (hmark : scan mark = t :: scan rest)
    (hno : ¬ t.source.toList <:+: region) :
    splitAtToken (fun u => u = t || u = .eof) (scan (region ++ mark)) =
      (ofList region, scan rest) := by
  obtain ⟨ts, hscan, hsource, hts⟩ := scan_region h
  have hgo : ∀ u ∈ ts, (decide (u = t) || decide (u = .eof)) = false := by
    intro u hu
    have hne : u ≠ t := by
      rintro rfl
      exact hno (hsource ▸ infix_of_mem hu)
    simp [hne, (hts u hu).1]
  rw [hscan, hmark, splitAtToken_append hgo (by simp), ← hsource, ← toList_sourceOf, ofList_toList]

lemma balanced_append (h : ∀ c ∈ cs, c ≠ '(' ∧ c ≠ ')') :
    balanced depth (cs ++ rest) = balanced depth rest := by
  induction cs with
  | nil => rfl
  | cons c cs ih =>
    obtain ⟨hopen, hclose⟩ := h c (by simp)
    rw [cons_append, balanced]
    · exact ih fun d hd => h d (by simp [hd])
    · exact hopen
    · exact hclose

lemma splitParens_of_ne (heof : t ≠ .eof) (hopen : t ≠ .parenStart) (hclose : t ≠ .parenEnd) :
    splitParens depth (t :: ts) =
      (t.source ++ (splitParens depth ts).1, (splitParens depth ts).2) := by
  cases t <;> simp_all [splitParens]

lemma splitParens_append {rest : List Token} (hts : ∀ t ∈ ts, t ≠ .eof ∧ t.IsWhole)
    (hbal : balanced depth (ts.flatMap (·.source.toList)) = true) :
    splitParens depth (ts ++ .parenEnd :: rest) = (sourceOf ts, rest) := by
  -- `depth` parentheses are open before `ts`, and reading stops when one more is closed
  induction ts generalizing depth with
  | nil =>
    obtain rfl : depth = 0 := by simpa [balanced] using hbal
    rfl
  | cons t ts ih =>
    have hts' : ∀ t ∈ ts, t ≠ .eof ∧ t.IsWhole := fun u hu => hts u (by simp [hu])
    obtain ⟨heof, hwhole⟩ := hts t (by simp)
    have hjoin : sourceOf (t :: ts) = t.source ++ sourceOf ts := by
      simp [sourceOf, join_cons]
    rw [flatMap_cons] at hbal
    by_cases hopen : t = .parenStart
    · subst hopen
      have hbal' : balanced (depth + 1) (ts.flatMap (·.source.toList)) = true := by
        simpa [source, balanced] using hbal
      rw [cons_append, splitParens, ih hts' hbal', hjoin]
      rfl
    by_cases hclose : t = .parenEnd
    · subst hclose
      cases depth with
      | zero => simp [source, balanced] at hbal
      | succ depth =>
        have hbal' : balanced depth (ts.flatMap (·.source.toList)) = true := by
          simpa [source, balanced] using hbal
        rw [cons_append, splitParens, ih hts' hbal', hjoin]
        rfl
    · have hfree := (hwhole.resolve_left hopen).resolve_left hclose
      rw [balanced_append hfree] at hbal
      rw [cons_append, splitParens_of_ne heof hopen hclose, ih hts' hbal, hjoin]

lemma splitArgs_some {args : String} (h : balanced 0 args.toList = true) :
    splitArgs (scan ('(' :: (args.toList ++ ')' :: rest))) = (some args, scan rest) := by
  have hsealed : Sealed args.toList (')' :: rest) := .arguments rest
  obtain ⟨ts, hscan, hsource, hts⟩ := scan_region hsealed
  rw [← hsource] at h
  rw [scan_parenStart, hscan, scan_parenEnd, splitArgs, splitParens_append hts h]
  rw [← toList_sourceOf, toList_inj] at hsource
  rw [hsource]

lemma splitArgs_none (h : ∀ c ∈ rest.head?, c ≠ '(') :
    splitArgs (scan rest) = (none, scan rest) := by
  by_cases hne : rest = []
  · rw [hne, scan_nil]
    rfl
  have hfirst : (Token.next rest).1 ≠ .parenStart := by
    intro hparen
    have hsource := next_source hne
    rw [hparen] at hsource
    have hhead : rest.head? = some '(' := by
      rw [← hsource]
      simp [source]
    exact h '(' hhead rfl
  rw [scan_cons hne]
  unfold splitArgs
  split
  · rename_i heq
    exact absurd (cons.inj heq).1 hfirst
  · rfl

/-! ## Trimming -/

lemma trimChars_cons_blank (cs : List Char) : trimChars (' ' :: cs) = trimChars cs := rfl

lemma trimChars_append_blank (cs : List Char) : trimChars (cs ++ [' ']) = trimChars cs := by
  have hblank : isBlank ' ' = true := by decide
  have htrimEnd : ∀ cs, trimEnd (cs ++ [' ']) = trimEnd cs := by
    intro cs
    simp [trimEnd, hblank]
  unfold trimChars trimStart
  rw [dropWhile_append]
  split
  · rename_i hempty
    rw [isEmpty_iff.mp hempty]
    simp [hblank]
  · exact htrimEnd _

/-! ## Reading what was printed -/

lemma build_text (h : isNormalText before s = true) (hfits : b.Fits before) (hrest : Ends rest) :
    build b (scan (s.toList ++ rest)) = build (b.add (.text s)) (scan rest) := by
  simp only [isNormalText, and_eq_true, bne_iff_ne, all_eq_true] at h
  obtain ⟨⟨⟨htext, hs⟩, hplain⟩, -⟩ := h
  rw [scan_text hs hplain hrest, build, Builder.addText_of_fits hfits htext hs]

lemma build_echo (h : isNormalEcho e = true) :
    build b (scan ((print (.echo e)).toList ++ rest)) = build (b.add (.echo e)) (scan rest) := by
  simp only [isNormalEcho, and_eq_true, beq_iff_eq, Bool.not_eq_true', decide_eq_false_iff_not] at h
  obtain ⟨htrim, hno⟩ := h
  -- the blanks that printing adds keep the mark from forming at the ends of the echo
  have hregion : ¬ ['\x7d', '\x7d'] <:+: ' ' :: (e.toList ++ [' ']) := by
    rw [infix_cons_iff, infix_concat_iff, suffix_concat_iff]
    rintro (hfirst | (hnil | ⟨front, hfront, -⟩) | hinside)
    · simp at hfirst
    · simp at hnil
    · simpa using congrArg getLast? hfront
    · exact hno hinside
  have hlast : (' ' :: (e.toList ++ [' '])).getLast? ≠ some '\x7d' := by
    simp [getLast?_cons]
  have hprint : (print (.echo e)).toList ++ rest =
      '\x7b' :: '\x7b' :: (' ' :: (e.toList ++ [' ']) ++ '\x7d' :: '\x7d' :: rest) := by
    simp [print]
  have hecho : Text.trim (ofList (' ' :: (e.toList ++ [' ']))) = e := by
    rw [Text.trim, String.toList_ofList, trimChars_cons_blank, trimChars_append_blank]
    exact htrim
  rw [hprint, scan_echoStart, build, splitAtToken_region (.echo _ hlast) (scan_echoEnd _) hregion]
  rw [hecho]

lemma build_directive (h : isNormalDirective name args = true)
    (hrest : Breaks (if args.isNone then .name else .free) rest) :
    build b (scan ('@' :: (name.toList ++ ((printArgs args).toList ++ rest)))) =
      build (b.directive name args) (scan rest) := by
  simp only [isNormalDirective, and_eq_true, bne_iff_ne, all_eq_true, Bool.not_eq_true'] at h
  obtain ⟨⟨⟨hne, hchars⟩, hend⟩, hargs⟩ := h
  have hargs' : splitArgs (scan ((printArgs args).toList ++ rest)) =
      (args, scan rest) := by
    cases args with
    | none => simpa [printArgs] using splitArgs_none fun c hc => (hrest c hc).2
    | some a => simpa [printArgs] using splitArgs_some hargs
  have hhead : ∀ c ∈ ((printArgs args).toList ++ rest).head?, isDirectiveChar c = false := by
    intro c hc
    cases args with
    | none => exact (hrest c (by simpa [printArgs] using hc)).1
    | some a =>
      obtain rfl : '(' = c := by simpa [printArgs] using hc
      decide
  rw [scan_directive hne hchars hhead, build, hend]
  show build (b.directive name (splitArgs _).1) (splitArgs _).2 = _
  rw [hargs']

lemma build_end (hchars : ∀ c ∈ name.toList, isDirectiveChar c = true)
    (hcloses : b.closes name.toList = true) (hrest : Breaks .name rest) :
    build b (scan ('@' :: 'e' :: 'n' :: 'd' :: (name.toList ++ rest))) =
      build b.closeBlock (scan rest) := by
  have hname : ("end" ++ name).toList = 'e' :: 'n' :: 'd' :: name.toList := by simp
  have hne : "end" ++ name ≠ "" := by simp
  have hchars' : ∀ c ∈ ("end" ++ name).toList, isDirectiveChar c = true := by
    rw [hname]
    simp only [forall_mem_cons]
    exact ⟨by decide, by decide, by decide, hchars⟩
  have hscan := scan_directive hne hchars' fun c hc => (hrest c hc).1
  rw [hname] at hscan
  have hstarts : "end".toList.isPrefixOf ("end" ++ name).toList = true := by
    rw [hname]
    simp
  have hdrop : ("end" ++ name).toList.drop 3 = name.toList := by
    rw [hname]
    rfl
  rw [cons_append, cons_append, cons_append] at hscan
  rw [hscan, build, hstarts, hdrop, hcloses]
  rfl

lemma trim_printAttrs (h : Text.trim attrs = attrs) :
    trimChars (printAttrs attrs).toList = attrs.toList := by
  have hchars : trimChars attrs.toList = attrs.toList := by
    rw [← String.toList_inj, Text.trim, String.toList_ofList] at h
    exact h
  unfold printAttrs
  split
  · rename_i hempty
    rw [isEmpty_iff.mp hempty]
    rfl
  · rw [toList_append]
    exact (trimChars_cons_blank _).trans hchars

lemma build_tagOpen (htag : isTag tag = true)
    (hhead : ∀ c ∈ (region ++ '>' :: rest).head?, isTagChar c = false) (hopen : '<' ∉ region)
    (hclose : '>' ∉ region) : build b (scan ('<' :: (tag.toList ++ (region ++ '>' :: rest)))) =
      build (b.tag tag region) (scan rest) := by
  have hno : ¬ ['>'] <:+: region := fun h => hclose (h.subset (by simp))
  rw [scan_tagOpen htag hhead, build, splitAtToken_region (.tag _ hopen) (scan_tagClose _) hno]
  rw [toList_ofList]

lemma build_tag (h : isNormalTag tag attrs = true) :
    build b (scan ('<' :: (tag.toList ++ ((printAttrs attrs).toList ++ '>' :: rest)))) =
      build (b.openBlock (.component tag attrs)) (scan rest) := by
  simp only [isNormalTag, and_eq_true, beq_iff_eq, bne_iff_ne, Bool.not_eq_true',
    contains_eq_mem, decide_eq_false_iff_not] at h
  obtain ⟨⟨⟨⟨htag, htrim⟩, hopen⟩, hclose⟩, hslash⟩ := h
  have hbracket : ∀ c, c = '<' ∨ c = '>' → c ∉ attrs.toList → c ∉ (printAttrs attrs).toList := by
    intro c hc hno
    unfold printAttrs
    split
    · simp
    · simp only [toList_append, mem_append]
      obtain rfl | rfl := hc <;> simpa using hno
  have hhead : ∀ c ∈ ((printAttrs attrs).toList ++ '>' :: rest).head?,
      isTagChar c = false := by
    intro c hc
    unfold printAttrs at hc
    split at hc
    · obtain rfl : '>' = c := by simpa using hc
      decide
    · obtain rfl : ' ' = c := by simpa using hc
      decide
  rw [build_tagOpen htag hhead (hbracket _ (.inl rfl) hopen) (hbracket _ (.inr rfl) hclose),
    Builder.tag, trim_printAttrs htrim]
  split
  · rename_i hlast
    exact absurd hlast hslash
  · rw [ofList_toList]

lemma build_tagEnd (htag : isTag tag = true) (hcloses : b.closesTag tag = true) :
    build b (scan ('<' :: '/' :: (tag.toList ++ '>' :: rest))) =
      build b.closeBlock (scan rest) := by
  rw [scan_tagEnd htag, build, hcloses]
  rfl

mutual

lemma build_print {b : Builder} {before : Edge} {rest : List Char} :
    (n : Node) → isNormal before n = true → b.Fits before → Breaks n.edge rest →
      build b (scan (n.print.toList ++ rest)) = build (b.add n) (scan rest)
  | .root ns, h, _, _ => by simp [isNormal] at h
  | .text s, h, hfits, hrest => build_text h hfits hrest
  | .echo e, h, _, _ => build_echo h
  | .directive name args ns, h, hfits, hrest => by
    rw [isNormal, and_eq_true] at h
    obtain ⟨hname, hns⟩ := h
    rw [edge] at hrest
    cases hblock : opensBlock name args with
    | false =>
      rw [hblock] at hns hrest
      obtain rfl : ns = [] := by simpa using hns
      have hprint : (print (.directive name args [])).toList ++ rest =
          '@' :: (name.toList ++ ((printArgs args).toList ++ rest)) := by
        simp [print, hblock]
      rw [hprint, build_directive hname hrest, Builder.directive_of_single hblock]
    | true =>
      rw [hblock] at hns hrest
      have hchars : ∀ c ∈ name.toList, isDirectiveChar c = true := by
        simp only [isNormalDirective, and_eq_true, all_eq_true] at hname
        exact hname.1.1.2
      have hprint : (print (.directive name args ns)).toList ++ rest =
          '@' :: (name.toList ++ ((printArgs args).toList ++ ((printAll ns).toList ++
            '@' :: 'e' :: 'n' :: 'd' :: (name.toList ++ rest)))) := by
        simp [print, hblock]
      -- the name opens the block, the children go into it, and the end closes it
      rw [hprint, build_directive hname (breaks_printAll hns (.block _)),
        Builder.directive_of_block hblock,
        build_printAll ns hns (Builder.fits_openBlock b _ _) (.block _),
        build_end hchars (Builder.closes_addAll ..) hrest, Builder.closeBlock_addAll]
      rfl
  | .component tag attrs ns, h, hfits, hrest => by
    rw [isNormal, and_eq_true] at h
    obtain ⟨htag, hns⟩ := h
    have hisTag : isTag tag = true := by
      simp only [isNormalTag, and_eq_true] at htag
      exact htag.1.1.1.1
    obtain ⟨cs, hcs, -⟩ := isTag_iff.mp hisTag
    have hstops : Stops ('<' :: '/' :: (tag.toList ++ '>' :: rest)) := by
      rw [hcs]
      exact .component _
    have hprint : (print (.component tag attrs ns)).toList ++ rest =
        '<' :: (tag.toList ++ ((printAttrs attrs).toList ++ '>' :: ((printAll ns).toList ++
          '<' :: '/' :: (tag.toList ++ '>' :: rest)))) := by
      simp [print]
    rw [hprint, build_tag htag, build_printAll ns hns (Builder.fits_openBlock b _ _) hstops,
      build_tagEnd hisTag (Builder.closesTag_addAll ..), Builder.closeBlock_addAll]
    rfl

lemma build_printAll {b : Builder} {before : Edge} {rest : List Char} :
    (ns : List Node) → areNormal before ns = true → b.Fits before → Stops rest →
      build b (scan ((printAll ns).toList ++ rest)) = build (b.addAll ns) (scan rest)
  | [], _, _, _ => by simp [printAll, Builder.addAll_nil]
  | n :: ns, h, hfits, hrest => by
    rw [areNormal, and_eq_true] at h
    obtain ⟨hn, hns⟩ := h
    -- what follows the first node is what its siblings print, and then the end of the block
    rw [printAll, toList_append, List.append_assoc,
      build_print n hn hfits (breaks_printAll hns hrest),
      build_printAll ns hns (b.fits_add n) hrest, Builder.addAll_add]

end

lemma parse_printed {source : String} (h : areNormal .free ns = true)
    (hsource : printAll ns = source) : parse source = .root ns := by
  have hfits : ({} : Builder).Fits .free := by
    intro s hs
    simp [Builder.nodes] at hs
  have hread : build {} (scan (printAll ns).toList) = { top := ns } := by
    have hall := build_printAll ns h hfits .source
    rw [append_nil, scan_nil, build] at hall
    rw [hall]
    rfl
  rw [← hsource, parse, tokenize_eq_scan, hread]
  rw [Builder.finish]

/-- Reading the printed source of a tree in normal form gives the tree back. -/
theorem parse_inverts_print {ns : List Node} (h : areNormal .free ns = true) :
    parse (print (.root ns)) = .root ns :=
  parse_printed h (by rw [print])

/-- Names, marks and parentheses in all the places where the lexer could mistake them: a page of
nested blocks and components, with arguments and echoes full of marks. -/
def crowdedPage : List Node :=
  [.text "Dear ", .echo "user.name == '@if(' \x7d", .text ", ",
    .directive "if" (some "f(1, (x)) > 0 && '\x7d\x7d @end' != y")
      [.component "x-a.b-2" "title='@(\x7b\x7b' on" [.text "in ", .component "x-" "" []],
        .directive "else" none [], .echo "",
        .directive "section" (some "'a'") [.directive "break" none [], .text " out"]],
    .directive "foreach" none [], .text "-",
    .directive "section" (some "'a', '</x-a>'") [], .text "end"]

theorem parse_inverts_print_crowdedPage : areNormal .free crowdedPage = true ∧
    parse (print (.root crowdedPage)) = .root crowdedPage := by
  have h : areNormal .free crowdedPage = true := by decide +kernel
  exact ⟨h, parse_inverts_print h⟩

end Node

end LiveMarkup
