import LiveMarkup.Proofs.Stripping

/-!
# Which tags are taken for checkboxes

A tag is a checkbox if its text has `type`, an equals sign and the quoted word `checkbox`. The
search knows nothing of attributes: it also finds an attribute whose name only ends in `type`, and a
value or target in which all of it stands with the other kind of quotes. But it never puts a phrase
together from two attributes (`mentionsCheckbox_print`).
-/

namespace LiveMarkup

open List Text

variable {cs rest v : List Char} {q : Markup.Quote}

/-- A text without quotes. -/
structure Text.Unquoted (cs : List Char) : Prop where
  double : '"' ∉ cs
  single : '\'' ∉ cs

lemma Text.Unquoted.of_cons (h : Unquoted (c :: cs)) : Unquoted cs :=
  ⟨fun hmem => h.double (mem_cons_of_mem c hmem), fun hmem => h.single (mem_cons_of_mem c hmem)⟩

lemma Text.Unquoted.append (hcs : Unquoted cs) (hds : Unquoted ds) : Unquoted (cs ++ ds) :=
  ⟨by simp [hcs.double, hds.double], by simp [hcs.single, hds.single]⟩

namespace Markup

lemma Quote.exists_char (h : c = '"' ∨ c = '\'') : ∃ q : Quote, c = q.char :=
  h.elim (fun h => ⟨.double, h⟩) fun h => ⟨.single, h⟩

lemma Quote.char_not_mem (q : Quote) (h : Unquoted cs) : q.char ∉ cs := by
  cases q
  · exact h.double
  · exact h.single

/-- Characters outside values, other than the equals signs before them. -/
def isInert (c : Char) : Bool :=
  c != '"' && c != '\'' && c != '='

lemma unquoted_of_isInert (h : ∀ c ∈ cs, isInert c = true) : Unquoted cs :=
  ⟨fun hmem => absurd (h _ hmem) (by decide), fun hmem => absurd (h _ hmem) (by decide)⟩

lemma isInert_of_isNameChar (h : isNameChar c = true) : isInert c = true := by
  simp only [isNameChar, Binding.isPlain, Bool.and_eq_true] at h
  simp only [isInert, h, Bool.and_self]

lemma isInert_of_isBlank (h : isBlank c = true) : isInert c = true := by
  simp only [isInert, Bool.and_eq_true, bne_iff_ne]
  refine ⟨⟨?_, ?_⟩, ?_⟩ <;> rintro rfl <;> revert h <;> decide

/-! ## The phrase that is searched for -/

/-- What stands before the quoted word: `type` and an equals sign, with blanks around the sign. -/
structure Lead where
  before : List Char
  isBlank_before : ∀ c ∈ before, isBlank c = true
  after : List Char
  isBlank_after : ∀ c ∈ after, isBlank c = true

def Lead.print (l : Lead) : List Char :=
  ['t', 'y', 'p', 'e'] ++ (l.before ++ '=' :: l.after)

/-- The word with the quote behind it. -/
def word (q : Quote) : List Char :=
  ['c', 'h', 'e', 'c', 'k', 'b', 'o', 'x'] ++ [q.char]

/-- A lead and the quoted word. The quotes need not be of one kind. -/
structure Phrase where
  lead : Lead
  opening : Quote
  closing : Quote

def Phrase.print (p : Phrase) : List Char :=
  p.lead.print ++ p.opening.char :: word p.closing

def Spelled (cs : List Char) : Prop :=
  ∃ p : Phrase, p.print <:+: cs

lemma Lead.unquoted_print (l : Lead) : Unquoted l.print := by
  have hbefore := unquoted_of_isInert fun c hc => isInert_of_isBlank (l.isBlank_before c hc)
  have hafter := unquoted_of_isInert fun c hc => isInert_of_isBlank (l.isBlank_after c hc)
  have hsign : Unquoted ['='] := ⟨by decide, by decide⟩
  exact .append ⟨by decide, by decide⟩ (hbefore.append (hsign.append hafter))

lemma checkboxAt_iff : Binding.checkboxAt cs = true ↔ ∃ p : Phrase, p.print <+: cs := by
  have htype : "type".toList = ['t', 'y', 'p', 'e'] := rfl
  have hcheckbox : "checkbox".toList = ['c', 'h', 'e', 'c', 'k', 'b', 'o', 'x'] := rfl
  simp only [Binding.checkboxAt, htype, hcheckbox]
  constructor
  · intro h
    obtain ⟨hlead, h⟩ := Bool.and_eq_true_iff.mp h
    obtain ⟨ds, rfl⟩ := isPrefixOf_iff_prefix.mp hlead
    rw [drop_left' (i := 4) rfl] at h
    split at h
    · rename_i es hes
      split at h
      · rename_i c fs hfs
        simp only [Bool.and_eq_true, Bool.or_eq_true, beq_iff_eq] at h
        obtain ⟨hc, hword, h⟩ := h
        obtain ⟨gs, rfl⟩ := isPrefixOf_iff_prefix.mp hword
        rw [drop_left' (i := 8) rfl] at h
        cases gs with
        | nil => cases h
        | cons d more =>
          simp only [Bool.and_true, Bool.or_eq_true, beq_iff_eq] at h
          obtain ⟨q, rfl⟩ := Quote.exists_char hc
          obtain ⟨q', rfl⟩ := Quote.exists_char h
          let l : Lead := ⟨ds.takeWhile isBlank, fun _ => mem_takeWhile_imp,
            es.takeWhile isBlank, fun _ => mem_takeWhile_imp⟩
          have hds : l.before ++ '=' :: es = ds := by rw [← hes, takeWhile_append_dropWhile]
          have hes : l.after ++ q.char :: (word q' ++ more) = es := by
            rw [word, append_assoc, singleton_append, ← hfs, takeWhile_append_dropWhile]
          refine ⟨⟨l, q, q'⟩, more, ?_⟩
          rw [← hds, ← hes, Phrase.print, Lead.print]
          simp only [append_assoc, cons_append]
      · cases h
    · cases h
  · rintro ⟨⟨l, q, q'⟩, more, rfl⟩
    have hblank (q : Quote) : isBlank q.char = false := by cases q <;> decide
    have hsign : isBlank '=' = false := by decide
    simpa [Phrase.print, Lead.print, word, dropWhile_append_of_pos l.isBlank_before,
      dropWhile_append_of_pos l.isBlank_after, hsign, hblank] using ⟨q.char_eq, q'.char_eq⟩

lemma spelled_cons : Spelled (c :: cs) ↔ (∃ p : Phrase, p.print <+: c :: cs) ∨ Spelled cs := by
  simp only [Spelled, infix_cons_iff, exists_or]

lemma mentionsCheckbox_iff : Binding.mentionsCheckbox cs = true ↔ Spelled cs := by
  induction cs with
  | nil => simp [Binding.mentionsCheckbox, Spelled, Phrase.print]
  | cons c cs ih => rw [Binding.mentionsCheckbox, Bool.or_eq_true, checkboxAt_iff, ih, spelled_cons]

lemma not_spelled_of_unquoted (h : Unquoted cs) : ¬ Spelled cs := by
  rintro ⟨p, hin⟩
  exact p.opening.char_not_mem h (hin.subset (by simp [Phrase.print]))

/-! ## Where the phrase can stand -/

lemma append_quote_inj {q' : Quote} (hcs : Unquoted cs) (hds : Unquoted ds)
    (h : cs ++ q.char :: rest = ds ++ q'.char :: more) : cs = ds ∧ rest = more := by
  induction cs generalizing ds with
  | nil =>
    cases ds with
    | nil => exact ⟨rfl, (cons.inj h).2⟩
    | cons d ds =>
      cases h
      exact absurd mem_cons_self (q.char_not_mem hds)
  | cons c cs ih =>
    cases ds with
    | nil =>
      cases h
      exact absurd mem_cons_self (q'.char_not_mem hcs)
    | cons d ds =>
      obtain ⟨rfl, htail⟩ := cons.inj h
      obtain ⟨rfl, hrest⟩ := ih hcs.of_cons hds.of_cons htail
      exact ⟨rfl, hrest⟩

lemma exists_prefix_quote_iff (hcs : Unquoted cs) (q : Quote) (rest : List Char) :
    (∃ p : Phrase, p.print <+: cs ++ q.char :: rest) ↔
      (∃ l : Lead, l.print = cs) ∧ ∃ q' : Quote, word q' <+: rest := by
  constructor
  · rintro ⟨p, more, h⟩
    rw [Phrase.print, append_assoc, cons_append] at h
    obtain ⟨hlead, hword⟩ := append_quote_inj p.lead.unquoted_print hcs h
    exact ⟨⟨p.lead, hlead⟩, p.closing, more, hword⟩
  · rintro ⟨⟨l, rfl⟩, q', more, rfl⟩
    exact ⟨⟨l, q, q'⟩, more, by rw [Phrase.print, append_assoc, cons_append]⟩

/-- The first quote of a text opens the word, or the phrase comes after it. -/
lemma spelled_quote (hcs : Unquoted cs) : Spelled (cs ++ q.char :: rest) ↔
    ((∃ l : Lead, l.print <:+ cs) ∧ ∃ q' : Quote, word q' <+: rest) ∨ Spelled rest := by
  induction cs with
  | nil =>
    have hstart := exists_prefix_quote_iff hcs q rest
    rw [nil_append] at hstart ⊢
    simp only [spelled_cons, hstart, suffix_nil]
  | cons c cs ih =>
    have hstart := exists_prefix_quote_iff hcs q rest
    rw [cons_append] at hstart ⊢
    rw [spelled_cons, hstart, ih hcs.of_cons]
    simp only [suffix_cons_iff, exists_or, or_and_right, or_assoc]

lemma word_ne_append_quote : word q' ≠ v ++ q.char :: c :: rest := by
  intro h
  obtain ⟨more, d, hd⟩ := (eq_nil_or_concat (c :: rest)).resolve_left (cons_ne_nil c rest)
  rw [hd, concat_eq_append, ← cons_append, ← append_assoc] at h
  have hmem : q.char ∈ v ++ q.char :: more := by simp
  rw [← append_inj_left' h rfl] at hmem
  exact absurd hmem (q.char_not_mem ⟨by decide, by decide⟩)

lemma eq_of_append_quote {p : Phrase} (h : p.print = v ++ q.char :: c :: rest) : c = 'c' := by
  rcases append_eq_append_iff.mp h with ⟨_ | ⟨a, as⟩, hv, heq⟩ | ⟨_ | ⟨a, as⟩, hlead, heq⟩
  · exact (cons.inj (cons.inj heq).2).1.symm
  · exact absurd (cons.inj heq).2 word_ne_append_quote
  · exact (cons.inj (cons.inj heq).2).1
  · rw [(cons.inj heq).1.symm] at hlead
    exact absurd (hlead ▸ by simp) (q.char_not_mem p.lead.unquoted_print)

lemma prefix_quote_iff (h : ∀ c more, w = v ++ q.char :: c :: more → rest.head? ≠ some c) :
    w <+: v ++ q.char :: rest ↔ w <+: v ++ [q.char] := by
  rw [append_cons v]
  constructor
  · intro hw
    rcases prefix_or_prefix_of_prefix hw (prefix_append _ rest) with hshort | ⟨_ | ⟨c, more⟩, rfl⟩
    · exact hshort
    · simp
    · obtain ⟨ds, rfl⟩ := (prefix_append_right_inj _).mp hw
      exact absurd rfl (h c more (by simp))
  · exact fun hw => hw.trans (prefix_append _ rest)

lemma spelled_value (hrest : rest.head? ≠ some 'c') : Spelled (v ++ q.char :: rest) ↔
    Spelled (v ++ [q.char]) ∨ Spelled rest := by
  have hstart (v : List Char) (p : Phrase) :
      p.print <+: v ++ q.char :: rest ↔ p.print <+: v ++ [q.char] :=
    prefix_quote_iff fun c more heq => eq_of_append_quote heq ▸ hrest
  induction v with
  | nil =>
    have hnil : ¬ Spelled [] := not_spelled_of_unquoted ⟨by simp, by simp⟩
    have hstart := hstart []
    simp only [nil_append] at hstart ⊢
    simp only [spelled_cons, hstart, or_iff_left hnil]
  | cons c v ih =>
    have hstart := hstart (c :: v)
    simp only [cons_append] at hstart ⊢
    simp only [spelled_cons, hstart, ih, or_assoc]

lemma exists_lead_iff (hcs : ∀ c ∈ cs ++ b :: n, isInert c = true) (hb : isBlank b = true)
    (hn : n ≠ []) (hname : ∀ c ∈ n, isNameChar c = true) :
    (∃ l : Lead, l.print <:+ cs ++ b :: n ++ ['=']) ↔ ['t', 'y', 'p', 'e'] <:+ n := by
  have htype : b ∉ ['t', 'y', 'p', 'e'] := by
    intro hmem
    simp at hmem
    rcases hmem with rfl | rfl | rfl | rfl <;> revert hb <;> decide
  constructor
  · rintro ⟨l, s, h⟩
    have hsign : '=' ∉ cs ++ b :: n := fun hmem => absurd (hcs _ hmem) (by decide)
    rw [Lead.print, ← append_assoc, ← append_assoc, eq_comm,
      append_cons_inj_of_notMem hsign not_mem_nil, eq_comm] at h
    obtain ⟨h, -, -⟩ := h
    -- A blank before the sign would be the last character of the name.
    have hbefore : l.before = [] := by
      rcases eq_nil_or_concat l.before with hnil | ⟨as, a, hlast⟩
      · exact hnil
      · obtain ⟨m, c, rfl⟩ := (eq_nil_or_concat n).resolve_left hn
        rw [hlast, concat_eq_append, concat_eq_append, ← cons_append, ← append_assoc,
          ← append_assoc] at h
        have hc := isBlank_of_isNameChar (hname c (by simp))
        rw [← (cons.inj (append_inj_right' h rfl)).1, l.isBlank_before a (by simp [hlast])] at hc
        cases hc
    rw [hbefore, append_nil] at h
    rcases suffix_or_suffix_of_suffix ⟨s, h⟩ (suffix_append cs (b :: n)) with hsuffix | hsuffix
    · exact (suffix_cons_iff.mp hsuffix).resolve_left fun heq => htype (heq ▸ mem_cons_self)
    · exact absurd (hsuffix.subset mem_cons_self) htype
  · rintro ⟨m, rfl⟩
    exact ⟨⟨[], nofun, [], nofun⟩, cs ++ b :: m, by simp [Lead.print]⟩

lemma spelled_attribute (hcs : ∀ c ∈ cs, isInert c = true) (hb : ∀ c ∈ b, isBlank c = true)
    (hne : b ≠ []) (hn : n ≠ []) (hname : ∀ c ∈ n, isNameChar c = true)
    (hrest : rest.head? ≠ some 'c') :
    Spelled (cs ++ (b ++ (n ++ '=' :: (q.char :: (v ++ [q.char]))) ++ rest)) ↔
      ((['t', 'y', 'p', 'e'] <:+ n ∧ ∃ q', word q' <+: v ++ [q.char]) ∨ Spelled (v ++ [q.char])) ∨
        Spelled rest := by
  obtain ⟨bs, c, rfl⟩ := (eq_nil_or_concat b).resolve_left hne
  have hinert : ∀ d ∈ cs ++ bs ++ c :: n, isInert d = true := by
    simp only [concat_eq_append, forall_mem_append, forall_mem_cons] at hb ⊢
    exact ⟨⟨hcs, fun d hd => isInert_of_isBlank (hb.1 d hd)⟩, isInert_of_isBlank hb.2.1,
      fun d hd => isInert_of_isNameChar (hname d hd)⟩
  have hsign : Unquoted ['='] := ⟨by decide, by decide⟩
  have hlead := (unquoted_of_isInert hinert).append hsign
  have htext : cs ++ (bs.concat c ++ (n ++ '=' :: (q.char :: (v ++ [q.char]))) ++ rest) =
      cs ++ bs ++ c :: n ++ ['='] ++ q.char :: (v ++ q.char :: rest) := by
    simp
  rw [htext, spelled_quote hlead, exists_lead_iff hinert (hb c (by simp)) hn hname,
    spelled_value hrest, or_assoc]
  simp only [prefix_quote_iff fun c more heq => absurd heq word_ne_append_quote]

/-! ## Tags -/

/-- An attribute is taken for that of a checkbox: its name ends in `type` and its value, with the
closing quote, begins with the word and some quote, or the phrase stands in its value. -/
def Attribute.SaysCheckbox : Attribute → Prop
  | .bare _ => False
  | .valued name quote value _ _ =>
    (['t', 'y', 'p', 'e'] <:+ name.chars ∧ ∃ q, word q <+: value ++ [quote.char]) ∨
      Spelled (value ++ [quote.char])
  | .marker _ target _ => Spelled (target ++ ['"'])

/-- The attribute `type="checkbox"`, in quotes of either kind. -/
def Attribute.IsCheckbox : Attribute → Prop
  | .valued name _ value _ _ => name.chars = "type".toList ∧ value = "checkbox".toList
  | _ => False

/-- Text without values may stand before the entries: the phrase is in one of them. -/
lemma spelled_entries (es : List Entry) (hcs : ∀ c ∈ cs, isInert c = true)
    (htrail : ∀ c ∈ trail, isBlank c = true) :
    Spelled (cs ++ (es.flatMap Entry.print ++ (trail ++ ['>']))) ↔
      ∃ e ∈ es, e.attr.SaysCheckbox := by
  induction es generalizing cs with
  | nil =>
    have hinert : ∀ c ∈ cs ++ (trail ++ ['>']), isInert c = true := by
      simp only [forall_mem_append, forall_mem_cons]
      exact ⟨hcs, fun c hc => isInert_of_isBlank (htrail c hc), rfl, forall_mem_nil _⟩
    simpa using not_spelled_of_unquoted (unquoted_of_isInert hinert)
  | cons e es ih =>
    obtain ⟨b, hb, hne, a⟩ := e
    have hrest : (es.flatMap Entry.print ++ (trail ++ ['>'])).head? ≠ some 'c' := fun h =>
      absurd (isDelimiter_head es htrail 'c' h) (by decide)
    have hes := ih (forall_mem_nil _)
    rw [nil_append] at hes
    simp only [flatMap_cons, append_assoc, mem_cons, exists_eq_or_imp, Entry.print]
    rw [← append_assoc b]
    cases a with
    | bare name =>
      have hinert : ∀ c ∈ cs ++ (b ++ name.chars), isInert c = true := by
        simp only [forall_mem_append]
        exact ⟨hcs, fun c hc => isInert_of_isBlank (hb c hc),
          fun c hc => isInert_of_isNameChar (name.isNameChar c hc)⟩
      rw [Attribute.print, ← append_assoc cs, ih hinert]
      exact (or_iff_right id).symm
    | valued name quote value hquote hvalue =>
      rw [Attribute.print, spelled_attribute hcs hb hne name.ne_nil name.isNameChar hrest, hes]
      rfl
    | marker kind target htarget =>
      obtain ⟨n, hn, hsplit, hname, htype⟩ : ∃ n, n ≠ [] ∧ Binding.spelling kind = n ++ ['='] ∧
          (∀ c ∈ n, isNameChar c = true) ∧ ¬ ['t', 'y', 'p', 'e'] <:+ n := by
        cases kind
        · exact ⟨"data-z-click".toList, by decide, rfl, all_eq_true.mp rfl, by decide⟩
        · exact ⟨"data-z-model".toList, by decide, rfl, all_eq_true.mp rfl, by decide⟩
      have hattr := spelled_attribute (q := .double) (v := target) hcs hb hne hn hname hrest
      simp only [htype, false_and, false_or, hes] at hattr
      rw [Attribute.print, hsplit, ← append_cons]
      exact hattr

lemma mentionsCheckbox_print (t : OpeningTag) :
    Binding.mentionsCheckbox t.print = true ↔ ∃ e ∈ t.entries, e.attr.SaysCheckbox := by
  have hinert : ∀ c ∈ '<' :: t.letter :: t.name, isInert c = true := by
    refine forall_mem_cons.mpr ⟨rfl, forall_mem_cons.mpr ⟨?_, fun c hc =>
      isInert_of_isNameChar (t.isNameChar_name c hc)⟩⟩
    have hletter := t.isAlpha_letter
    simp only [isInert, Bool.and_eq_true, bne_iff_ne]
    refine ⟨⟨?_, ?_⟩, ?_⟩ <;> intro h <;> rw [h] at hletter <;> revert hletter <;> decide
  have htext : t.print = ('<' :: t.letter :: t.name) ++
      (t.entries.flatMap Entry.print ++ (t.trail ++ ['>'])) := by
    simp [OpeningTag.print, OpeningTag.printRest]
  rw [mentionsCheckbox_iff, htext, spelled_entries t.entries hinert t.isBlank_trail]

lemma toMarker_extract_print (parts : List Part) :
    (Binding.extract (String.ofList (print parts))).bindings.map Binding.toMarker =
      parts.flatMap (Part.flagged fun t => Binding.mentionsCheckbox t.print) := by
  rw [Binding.extract, String.toList_ofList]
  exact (extractFrom_print {} parts).2

/-- From a well-formed document, extraction gives one binding for each marker, in document order.
That of a model is flagged as a checkbox if and only if some attribute of its tag is taken for that
of a checkbox. The attribute `type="checkbox"` is. -/
theorem model_flag_extract_print (parts : List Part) : ∃ flag : OpeningTag → Bool,
    (Binding.extract (String.ofList (print parts))).bindings.map Binding.toMarker =
      parts.flatMap (Part.flagged flag) ∧
    (∀ t, flag t = true ↔ ∃ e ∈ t.entries, e.attr.SaysCheckbox) ∧
    ∀ a : Attribute, a.IsCheckbox → a.SaysCheckbox := by
  refine ⟨_, toMarker_extract_print parts, mentionsCheckbox_print, fun a ha => ?_⟩
  cases a with
  | valued name quote value hquote hvalue =>
    exact .inl ⟨ha.1 ▸ ⟨[], rfl⟩, quote, ha.2 ▸ ⟨[], by simp [word]⟩⟩
  | _ => exact ha.elim

def dataTypeField : OpeningTag where
  letter := 'i'
  isAlpha_letter := by decide
  name := "nput".toList
  isNameChar_name := all_eq_true.mp rfl
  entries :=
    [⟨[' '], all_eq_true.mp rfl, by decide,
        .valued ⟨"data-type".toList, by decide, all_eq_true.mp rfl, by decide⟩
          .double "checkbox".toList (by decide) (by decide)⟩,
      ⟨[' '], all_eq_true.mp rfl, by decide, .marker .model ['a'] (by decide)⟩]
  trail := []
  isBlank_trail := nofun

/-- Another attribute whose name ends in `type` makes a checkbox of a field. -/
theorem data_type_says_checkbox :
    String.ofList (print [.opening dataTypeField]) =
      "<input data-type=\"checkbox\" data-z-model=\"a\">" ∧
    (Binding.extract "<input data-type=\"checkbox\" data-z-model=\"a\">").bindings.map
      Binding.toMarker = [⟨.model, "a", true⟩] ∧
    ¬ ∃ e ∈ dataTypeField.entries, e.attr.IsCheckbox := by
  have hprint : String.ofList (print [.opening dataTypeField]) =
      "<input data-type=\"checkbox\" data-z-model=\"a\">" := by decide
  refine ⟨hprint, ?_, by simp [dataTypeField, Attribute.IsCheckbox]⟩
  rw [← hprint, toMarker_extract_print]
  decide

end Markup

end LiveMarkup
