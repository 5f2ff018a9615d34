import LiveMarkup.Proofs.Fields
import LiveMarkup.Proofs.TreePrinting

/-!
# Attributes of component tags

What a component tag lists is cut out of the source by the lexer, put together again and trimmed,
and then searched for attributes. Nothing is lost or added before the search. The search ends a
value at the first quote of either kind and never looks beyond a line, so it finds the attributes
that were written exactly if their values contain neither.
-/

namespace LiveMarkup

open List Text Token TagText
open String (ofList)

variable {a : Attribute}

/-! ## Attributes as they are written -/

namespace TagText

/-- An attribute between double quotes, with a colon in front if its value is an expression. -/
def Attribute.spelled (a : Attribute) : List Char :=
  (if a.isDynamic then [':'] else []) ++
    (a.name.toList ++ '=' :: '"' :: (a.value.toList ++ ['"']))

/-- A name of name characters, and a value that ends neither itself nor the tag. -/
structure Attribute.Writable (a : Attribute) : Prop where
  ne_nil : a.name.toList ≠ []
  name : ∀ c ∈ a.name.toList, isNameChar c = true
  value : ∀ c ∈ a.value.toList, c ≠ '"' ∧ c ≠ '<' ∧ c ≠ '>'

/-- Attributes one after the other, with spaces around them. -/
inductive Listed : List Attribute → List Char → Prop
  | done (k : Nat) : Listed [] (replicate k ' ')
  | next {a : Attribute} {as : List Attribute} {cs : List Char} (k : Nat) (ha : a.Writable)
      (has : Listed as cs) : Listed (a :: as) (replicate k ' ' ++ (a.spelled ++ cs))

/-- A value on one line, without the other kind of quotes. -/
def Attribute.Plain (a : Attribute) : Prop :=
  ∀ c ∈ a.value.toList, c ≠ '\'' ∧ c ≠ '\n'

/-! ## The search -/

/-- Characters that a value may run over. -/
def isValueChar (c : Char) : Bool :=
  !isQuote c && c != '\n'

lemma isValueChar_iff : isValueChar c = true ↔ c ≠ '"' ∧ c ≠ '\'' ∧ c ≠ '\n' := by
  simp [isValueChar, isQuote, and_assoc]

lemma quoted?_append (hcs : ∀ c ∈ cs, isValueChar c = true) (rest : List Char) :
    quoted? ('"' :: (cs ++ '"' :: rest)) = some (cs, rest) := by
  have htake : (cs ++ '"' :: rest).takeWhile (fun c => !isQuote c && c != '\n') = cs :=
    (takeWhile_append_of_all hcs (by rintro c ⟨⟩; decide)).1
  have hquote : isQuote '"' = true := by decide
  simp [quoted?, htake, hquote]

lemma named?_append (hne : n ≠ []) (hn : ∀ c ∈ n, isNameChar c = true)
    (hcs : ∀ c ∈ cs, isValueChar c = true) (rest : List Char) :
    named? (n ++ '=' :: '"' :: (cs ++ '"' :: rest)) = some (n, cs, rest) := by
  have htake : (n ++ '=' :: '"' :: (cs ++ '"' :: rest)).takeWhile isNameChar = n :=
    (takeWhile_append_of_all hn (by rintro c ⟨⟩; decide)).1
  simp [named?, htake, hne, quoted?_append hcs]

lemma attribute?_spelled (ha : a.Writable) (hplain : a.Plain) (rest : List Char) :
    attribute? (a.spelled ++ rest) = some (a, rest) := by
  have hvalue : ∀ c ∈ a.value.toList, isValueChar c = true := fun c hc =>
    isValueChar_iff.mpr ⟨(ha.value c hc).1, hplain c hc⟩
  have hnamed := named?_append ha.ne_nil ha.name hvalue rest
  obtain ⟨n, v, d⟩ := a
  cases d with
  | true => simp [Attribute.spelled, attribute?, hnamed]
  | false =>
    obtain ⟨c, cs, hcs⟩ := exists_cons_of_ne_nil ha.ne_nil
    have hcolon : c ≠ ':' := by
      rintro rfl
      exact absurd (ha.name ':' (hcs ▸ mem_cons_self)) (by decide)
    simp only [Attribute.spelled, Bool.false_eq_true, if_false, nil_append, append_assoc,
      cons_append] at hnamed hcs ⊢
    rw [hcs] at hnamed ⊢
    rw [cons_append] at hnamed ⊢
    rw [attribute?, hnamed]
    · simp [← hcs]
    · simpa using hcolon

lemma attributesFrom_append (cs rest : List Char) :
    attributesFrom cs.length (cs ++ rest) = attributesFrom 0 rest := by
  induction cs with
  | nil => rfl
  | cons c cs ih => exact ih

lemma attributesFrom_spelled (ha : a.Writable) (hplain : a.Plain) (rest : List Char) :
    attributesFrom 0 (a.spelled ++ rest) = a :: attributesFrom 0 rest := by
  have hfound := attribute?_spelled ha hplain rest
  obtain ⟨c, cs, hcs⟩ : ∃ c cs, a.spelled = c :: cs :=
    exists_cons_of_ne_nil (by simp [Attribute.spelled])
  rw [hcs, cons_append] at hfound ⊢
  rw [attributesFrom, hfound]
  simpa using attributesFrom_append cs rest

lemma attributesFrom_spaces (k : Nat) (rest : List Char) :
    attributesFrom 0 (replicate k ' ' ++ rest) = attributesFrom 0 rest := by
  induction k with
  | zero => rfl
  | succ k ih => exact ih

lemma Listed.attributesFrom (h : Listed as cs) (hplain : ∀ a ∈ as, a.Plain) :
    attributesFrom 0 cs = as := by
  induction h with
  | done k => simpa [TagText.attributesFrom] using attributesFrom_spaces k []
  | next k ha _ ih =>
    obtain ⟨hplain, hrest⟩ := forall_mem_cons.mp hplain
    rw [attributesFrom_spaces, attributesFrom_spelled ha hplain, ih hrest]

lemma value_of_quoted? (h : quoted? cs = some (v, rest)) : ∀ c ∈ v, isValueChar c = true := by
  unfold quoted? at h
  split at h
  next q cs =>
    split at h
    · dsimp only at h
      split at h
      · split at h
        · cases h
          exact fun c hc => mem_takeWhile_imp hc
        · cases h
      · cases h
    · cases h
  next => cases h

lemma value_of_named? (h : named? cs = some (n, v, rest)) : ∀ c ∈ v, isValueChar c = true := by
  unfold named? at h
  dsimp only at h
  split at h
  · cases h
  · split at h
    · obtain ⟨⟨v, rest⟩, hquoted, heq⟩ := Option.map_eq_some_iff.mp h
      cases heq
      exact value_of_quoted? hquoted
    · cases h

lemma plain_of_attribute? (h : attribute? cs = some (a, rest)) : a.Plain := by
  have hvalue {ds : List Char} {d : Bool} (h : (named? ds).map (fun r =>
      ((⟨ofList r.1, ofList r.2.1, d⟩ : Attribute), r.2.2)) = some (a, rest)) :
      a.Plain := by
    obtain ⟨⟨n, v, rest⟩, hnamed, heq⟩ := Option.map_eq_some_iff.mp h
    cases heq
    intro c hc
    rw [String.toList_ofList] at hc
    exact (isValueChar_iff.mp (value_of_named? hnamed c hc)).2
  unfold attribute? at h
  split at h
  · exact hvalue h
  · exact hvalue h

/-- No value that is found contains a quote or goes beyond its line. -/
lemma plain_of_mem_attributesFrom (h : a ∈ attributesFrom k cs) : a.Plain := by
  induction cs generalizing k with
  | nil => cases h
  | cons c cs ih =>
    cases k with
    | succ k => exact ih h
    | zero =>
      rw [attributesFrom] at h
      split at h
      · rename_i hfound
        rcases mem_cons.mp h with rfl | h
        · exact plain_of_attribute? hfound
        · exact ih h
      · exact ih h

end TagText

/-! ## The text of the tag -/

namespace Text

lemma trimEnd_append (h : ∀ c ∈ front.getLast?, isBlank c = false) (hne : front ≠ [])
    (cs : List Char) : trimEnd (front ++ cs) = front ++ trimEnd cs := by
  have hfront : front.reverse.dropWhile isBlank = front.reverse := by
    obtain ⟨c, front, hrev⟩ := exists_cons_of_ne_nil (reverse_ne_nil_iff.mpr hne)
    rw [← head?_reverse, hrev] at h
    rw [hrev, dropWhile_cons_of_neg (by simp [h c rfl])]
  rw [trimEnd, reverse_append, dropWhile_append]
  split
  · rename_i hempty
    rw [trimEnd, isEmpty_iff.mp hempty, hfront]
    simp
  · rw [trimEnd, reverse_append, reverse_reverse]

lemma trimChars_append_slash (cs : List Char) :
    trimChars (cs ++ ['/']) = trimStart cs ++ ['/'] := by
  have hstart : trimStart (cs ++ ['/']) = trimStart cs ++ ['/'] := by
    unfold trimStart
    rw [dropWhile_append]
    split
    · rename_i hempty
      rw [isEmpty_iff.mp hempty]
      decide
    · rfl
  have hend : trimEnd (trimStart cs ++ ['/'] ++ []) = _ :=
    trimEnd_append (by simp; decide) (by simp) []
  rw [trimChars, hstart]
  simpa [trimEnd] using hend

end Text

namespace TagText

lemma Attribute.getLast?_spelled (a : Attribute) : a.spelled.getLast? = some '"' := by
  simp only [spelled, ← cons_append, ← append_assoc, getLast?_concat]

lemma isBlank_of_mem_spaces (h : c ∈ replicate k ' ') : isBlank c = true := by
  rw [eq_of_mem_replicate h]
  decide

lemma Listed.trimEnd (h : Listed as cs) : Listed as (trimEnd cs) := by
  induction h with
  | done k =>
    rw [Text.trimEnd, List.reverse_replicate,
      dropWhile_eq_nil_iff.mpr fun c hc => isBlank_of_mem_spaces hc]
    exact .done 0
  | @next a as cs k ha _ ih =>
    have hlast : (replicate k ' ' ++ a.spelled).getLast? = some '"' := by
      rw [getLast?_append, a.getLast?_spelled]
      rfl
    rw [← append_assoc, trimEnd_append _ _ cs, append_assoc]
    · exact .next k ha ih
    · rw [hlast]
      rintro c ⟨⟩
      decide
    · rintro hnil
      rw [hnil] at hlast
      cases hlast

lemma isBlank_of_isNameChar (h : isNameChar c = true) : isBlank c = false := by
  simp only [isNameChar, Char.isAlphanum, Bool.or_eq_true, isAlpha_iff, isDigit_iff,
    beq_iff_eq] at h
  rcases h with (h | rfl) | rfl
  · simp only [isBlank, Bool.or_eq_false_iff, Bool.and_eq_false_iff, decide_eq_false_iff_not,
      beq_eq_false_iff_ne]
    omega
  · decide
  · decide

lemma Attribute.Writable.head?_spelled (ha : a.Writable) :
    ∀ c ∈ (a.spelled ++ rest).head?, isBlank c = false := by
  obtain ⟨c, cs, hcs⟩ := exists_cons_of_ne_nil ha.ne_nil
  have hc := ha.name c (hcs ▸ mem_cons_self)
  intro d hd
  cases hdyn : a.isDynamic with
  | true =>
    simp only [spelled, hdyn] at hd
    cases hd
    decide
  | false =>
    simp only [spelled, hdyn, hcs] at hd
    cases hd
    exact isBlank_of_isNameChar hc

lemma Listed.trimChars (h : Listed as cs) : Listed as (trimChars cs) := by
  refine Listed.trimEnd ?_
  cases h with
  | done k =>
    rw [trimStart, dropWhile_eq_nil_iff.mpr fun c hc => isBlank_of_mem_spaces hc]
    exact .done 0
  | next k ha has =>
    rw [trimStart, (takeWhile_append_of_all (fun c hc => isBlank_of_mem_spaces hc)
      ha.head?_spelled).2]
    exact .next 0 ha has

/-- The search finds the attributes that were written if and only if their values are plain. -/
lemma Listed.attributes_eq_iff (h : Listed as cs) :
    attributes (ofList (Text.trimChars cs)) = as ↔ ∀ a ∈ as, a.Plain := by
  rw [attributes, String.toList_ofList]
  constructor
  · intro heq a ha
    rw [← heq] at ha
    exact plain_of_mem_attributesFrom ha
  · exact h.trimChars.attributesFrom

lemma Listed.getLast? (h : Listed as cs) : ∀ c ∈ cs.getLast?, c = ' ' ∨ c = '"' := by
  induction h with
  | done k => exact fun c hc => .inl (eq_of_mem_replicate (mem_of_getLast? hc))
  | @next a as cs k _ _ ih =>
    intro c hc
    rw [getLast?_append, getLast?_append, a.getLast?_spelled, Option.or_assoc, Option.some_or] at hc
    rcases Option.or_eq_some_iff.mp hc with hc | ⟨-, hc⟩
    · exact ih c hc
    · cases hc
      exact .inr rfl

lemma Attribute.Writable.not_mem (ha : a.Writable) (hd : d = '<' ∨ d = '>') : d ∉ a.spelled := by
  have hname : d ∉ a.name.toList := by
    intro hmem
    have := ha.name d hmem
    rcases hd with rfl | rfl <;> revert this <;> decide
  have hvalue : d ∉ a.value.toList := by
    intro hmem
    have hne := ha.value d hmem
    rcases hd with rfl | rfl <;> simp at hne
  rcases hd with rfl | rfl <;> cases hdyn : a.isDynamic <;> simp [spelled, hdyn, hname, hvalue]

lemma Listed.not_mem (h : Listed as cs) (hd : d = '<' ∨ d = '>') : d ∉ cs := by
  have hspace : ∀ k, d ∉ replicate k ' ' := by
    intro k hmem
    have := eq_of_mem_replicate hmem
    rcases hd with rfl | rfl <;> revert this <;> decide
  induction h with
  | done k => exact hspace k
  | next k ha _ ih =>
    simp only [mem_append, hspace, ha.not_mem hd, ih, or_self, not_false_eq_true]

end TagText

/-! ## The tag in the tree, and its instructions -/

namespace Node

lemma tag_listed (b : Builder) (h : Listed as cs) :
    b.tag tag cs = b.openBlock (.component tag (ofList (trimChars cs))) := by
  rw [Builder.tag]
  split
  · rename_i hlast
    exact absurd (h.trimChars.getLast? _ hlast) (by decide)
  · rfl

lemma tag_slash (b : Builder) (cs : List Char) :
    b.tag tag (cs ++ ['/']) = b.add (.component tag (ofList (trimChars cs)) []) := by
  rw [Builder.tag, trimChars_append_slash]
  simp [trimChars]

lemma head?_of_spaced (hspace : ∀ c ∈ cs.head?, c = ' ') (hd : isTagChar d = false) :
    ∀ c ∈ (cs ++ d :: rest).head?, isTagChar c = false := by
  cases cs with
  | nil => rintro c ⟨⟩; exact hd
  | cons c cs => rintro d ⟨⟩; rw [hspace c rfl]; decide

lemma build_listed (htag : isTag tag = true) (h : Listed as cs)
    (hspace : ∀ c ∈ cs.head?, c = ' ') (b : Builder) (rest : List Char) :
    build b (scan ('<' :: (tag.toList ++ (cs ++ '>' :: rest)))) =
      build (b.openBlock (.component tag (ofList (trimChars cs)))) (scan rest) := by
  rw [build_tagOpen htag (head?_of_spaced hspace (by decide)) (h.not_mem (.inl rfl))
    (h.not_mem (.inr rfl)), tag_listed b h]

lemma build_listed_slash (htag : isTag tag = true) (h : Listed as cs)
    (hspace : ∀ c ∈ cs.head?, c = ' ') (b : Builder) (rest : List Char) :
    build b (scan ('<' :: (tag.toList ++ (cs ++ ['/'] ++ '>' :: rest)))) =
      build (b.add (.component tag (ofList (trimChars cs)) [])) (scan rest) := by
  have hnot {d : Char} (hd : d = '<' ∨ d = '>') : d ∉ cs ++ ['/'] := by
    rw [mem_append, mem_singleton]
    rintro (hmem | rfl)
    · exact h.not_mem hd hmem
    · revert hd
      decide
  have hhead : ∀ c ∈ (cs ++ ['/'] ++ '>' :: rest).head?, isTagChar c = false := by
    rw [append_assoc]
    exact head?_of_spaced hspace (by decide)
  rw [build_tagOpen htag hhead (hnot (.inl rfl)) (hnot (.inr rfl)), tag_slash]

lemma parse_of_build (h : build {} (scan s.toList) = build (({} : Builder).add n) (scan [])) :
    parse s = .root [n] := by
  rw [scan_nil, build] at h
  rw [parse, tokenize_eq_scan, h]
  show root (Builder.finish [] [n]) = _
  rw [Builder.finish]

end Node

namespace Compile

/-- What an attribute means: its value as it stands, or the expression that it spells. -/
inductive Reads : Attribute → String × AttrValue → Prop
  | literal (name value : String) : Reads ⟨name, value, false⟩ (name, .literal value)
  | dynamic (he : Expr.parse value = .ok e) : Reads ⟨name, value, true⟩ (name, .dynamic e)

lemma attributes_of_reads (tag : String) (h : Forall₂ Reads as values) :
    attributes tag as = .ok values := by
  induction h with
  | nil => rfl
  | cons ha _ ih =>
    cases ha with
    | literal name value =>
      rw [attributes, ih]
      rfl
    | dynamic he =>
      rw [attributes, ih]
      simp only [if_true, expression, he]
      rfl

/-- Wherever a component tag stands, its attributes are found as they were written if and only if
their values are plain, and then they are compiled in order, each with its whole value. -/
theorem tag_attributes_iff {tag : String} {as : List TagText.Attribute} {cs : List Char}
    (htag : Token.isTag tag = true) (h : TagText.Listed as cs) (hspace : ∀ c ∈ cs.head?, c = ' ')
    (hvalues : List.Forall₂ Reads as values) :
    ∃ text,
      (∀ b rest, Node.build b (Token.scan ('<' :: (tag.toList ++ (cs ++ '>' :: rest)))) =
        Node.build (b.openBlock (.component tag text)) (Token.scan rest)) ∧
      (∀ b rest, Node.build b (Token.scan ('<' :: (tag.toList ++ (cs ++ ['/'] ++ '>' :: rest)))) =
        Node.build (b.add (.component tag text [])) (Token.scan rest)) ∧
      (TagText.attributes text = as ↔ ∀ a ∈ as, a.Plain) ∧
      ((∀ a ∈ as, a.Plain) → ∀ breakable children,
        node breakable (.component tag text children) = (do
          let slots ← slotBodies {} children
          return [.component (componentName tag) values slots.finish])) := by
  refine ⟨String.ofList (Text.trimChars cs), Node.build_listed htag h hspace,
    Node.build_listed_slash htag h hspace, h.attributes_eq_iff, fun hplain breakable children => ?_⟩
  rw [node, h.attributes_eq_iff.mpr hplain, attributes_of_reads tag hvalues]
  rfl

theorem tag_attributes_iff_card :
    ∃ as cs, TagText.Listed as cs ∧ (∀ a ∈ as, a.Plain) ∧
      String.ofList ('<' :: ("x-card".toList ++ (cs ++ ['/'] ++ ['>']))) =
        "<x-card title=\"a b\" :n=\"user.name\"/>" ∧
      Routine.compile "<x-card title=\"a b\" :n=\"user.name\"/>" =
        .ok ⟨[.component "card" [("title", .literal "a b"),
          ("n", .dynamic (.member (.name "user") "name"))] []]⟩ := by
  have htitle : TagText.Attribute.Writable ⟨"title", "a b", false⟩ :=
    ⟨by decide, all_eq_true.mp (by decide), by simp⟩
  have hn : TagText.Attribute.Writable ⟨"n", "user.name", true⟩ :=
    ⟨by decide, all_eq_true.mp (by decide), by simp⟩
  have hlisted := TagText.Listed.next 1 htitle (.next 1 hn (.done 0))
  have hplain : ∀ a ∈ [(⟨"title", "a b", false⟩ : Attribute), ⟨"n", "user.name", true⟩],
      a.Plain := by
    simp [TagText.Attribute.Plain]
  have hread : Reads ⟨"n", "user.name", true⟩ ("n", .dynamic (.member (.name "user") "name")) :=
    .dynamic Field.parse_user_name
  have hvalues := List.Forall₂.cons (Reads.literal "title" "a b") (.cons hread .nil)
  have htag : isTag "x-card" = true := by decide
  obtain ⟨text, -, hslash, -, hnode⟩ :=
    tag_attributes_iff htag hlisted (by rintro c ⟨⟩; rfl) hvalues
  refine ⟨_, _, hlisted, hplain, by decide +kernel, ?_⟩
  have hparse : Node.parse "<x-card title=\"a b\" :n=\"user.name\"/>" =
      .root [.component "x-card" text []] := Node.parse_of_build (hslash {} [])
  rw [Routine.compile, hparse, Routine.ofNode_of_extends?_eq_none rfl]
  simp only [Node.children, nodes, hnode hplain]
  rfl

/-- A title with an apostrophe is cut there. -/
theorem tag_attribute_cut :
    ∃ cs, TagText.Listed [⟨"t", "it's", false⟩] cs ∧
      String.ofList ('<' :: ("x-c".toList ++ (cs ++ ['/'] ++ ['>']))) = "<x-c t=\"it's\"/>" ∧
      Routine.compile "<x-c t=\"it's\"/>" =
        .ok ⟨[.component "c" [("t", .literal "it")] []]⟩ := by
  have ht : TagText.Attribute.Writable ⟨"t", "it's", false⟩ :=
    ⟨by decide, all_eq_true.mp (by decide), by simp⟩
  have hlisted := TagText.Listed.next 1 ht (.done 0)
  refine ⟨_, hlisted, by decide +kernel, ?_⟩
  have htag : isTag "x-c" = true := by decide
  have hparse : Node.parse "<x-c t=\"it's\"/>" = .root [.component "x-c" "t=\"it's\"" []] :=
    Node.parse_of_build (Node.build_listed_slash htag hlisted (by rintro c ⟨⟩; rfl) {} [])
  have hfound : TagText.attributes "t=\"it's\"" = [⟨"t", "it", false⟩] := by decide +kernel
  rw [Routine.compile, hparse, Routine.ofNode_of_extends?_eq_none rfl]
  simp only [Node.children, nodes, node, hfound]
  rfl

end Compile

end LiveMarkup
