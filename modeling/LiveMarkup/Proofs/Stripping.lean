import LiveMarkup.Proofs.Handlers
import LiveMarkup.Proofs.Lexing
import Mathlib.Data.List.TakeWhile

/-!
# Markers are taken out of well-formed markup

Tags and markers are found by scanning characters, and a `>` or a marker in a value could lead the
scans astray. In well-formed markup they are not: a piece of a tag that closes its quotes is passed
as a whole (`Binding.Closed`), and no marker begins in a piece that does not spell one
(`Binding.Quiet`).

`Markup.Part` are the parts of well-formed documents. What is extracted from a printed document is
the document without its markers, and its markers in order, numbered by kind.
-/

namespace LiveMarkup

open List Text Binding List

variable {cs b rest : List Char} {c : Char} {k : BindingKind} {a : Attribute}

lemma Text.isAlphabetic_of_isAlpha (h : c.isAlpha = true) : isAlphabetic c = true := by
  have hascii := isAlpha_iff.mp h
  rw [isAlphabetic, if_pos (by omega), h]

namespace Binding

/-! ## The end of a tag -/

/-- A piece of a tag that leaves no quote open and has no angle bracket outside quotes. -/
def Closed (cs : List Char) : Prop :=
  ∀ rest, tagRest none (cs ++ rest) = (tagRest none rest).map fun r => (cs ++ r.1, r.2)

def isPlain (c : Char) : Bool :=
  c != '<' && c != '>' && c != '"' && c != '\''

variable {ds v t : List Char}

lemma Closed.append (hcs : Closed cs) (hds : Closed ds) : Closed (cs ++ ds) := by
  intro rest
  rw [append_assoc, hcs, hds, Option.map_map]
  simp [Function.comp_def]

lemma closed_of_isPlain (h : ∀ c ∈ cs, isPlain c = true) : Closed cs := by
  induction cs with
  | nil =>
    intro rest
    simp
  | cons c cs ih =>
    obtain ⟨hc, hcs⟩ := forall_mem_cons.mp h
    simp only [isPlain, Bool.and_eq_true, bne_iff_ne] at hc
    obtain ⟨⟨⟨hlt, hgt⟩, hdouble⟩, hsingle⟩ := hc
    intro rest
    simp [tagRest, hlt, hgt, hdouble, hsingle, ih hcs rest, Function.comp_def]

lemma tagRest_quoted (hv : q ∉ v) (rest : List Char) :
    tagRest (some q) (v ++ q :: rest) = (tagRest none rest).map fun r => (v ++ q :: r.1, r.2) := by
  induction v with
  | nil => simp [tagRest]
  | cons c v ih =>
    simp only [mem_cons, not_or] at hv
    simp [tagRest, Ne.symm hv.1, ih hv.2, Function.comp_def]

lemma closed_quoted (hq : q = '"' ∨ q = '\'') (hv : q ∉ v) : Closed (q :: (v ++ [q])) := by
  intro rest
  have hquote : tagRest none (q :: (v ++ q :: rest)) =
      (tagRest (some q) (v ++ q :: rest)).map fun r => (q :: r.1, r.2) := by
    rcases hq with rfl | rfl <;> rfl
  rw [cons_append, append_assoc, singleton_append, hquote, tagRest_quoted hv, Option.map_map]
  simp [Function.comp_def]

lemma tag?_of_closed (hc : c.isAlpha = true) (hcs : Closed cs) (rest : List Char) :
    tag? ('<' :: c :: (cs ++ '>' :: rest)) = some ('<' :: c :: (cs ++ ['>']), rest) := by
  simp [tag?, hc, hcs ('>' :: rest), tagRest]

/-! ## Where markers begin -/

lemma bne_quote_of_not_mem (h : '"' ∉ cs) : ∀ c ∈ cs, (c != '"') = true :=
  fun c hc => bne_iff_ne.mpr fun (hq : c = '"') => h (hq ▸ hc)

/-- The spelling of a marker up to its first quote. -/
def spelling : BindingKind → List Char
  | .click => "data-z-click=".toList
  | .model => "data-z-model=".toList

lemma marker_eq (k : BindingKind) : marker k = spelling k ++ ['"'] := by
  cases k <;> rfl

lemma length_spelling (k : BindingKind) : (spelling k).length = 13 := by
  cases k <;> rfl

lemma quote_not_mem_spelling (k : BindingKind) : '"' ∉ spelling k := by
  cases k <;> decide

lemma isBlank_of_mem_spelling (hc : c ∈ spelling k) : isBlank c = false := by
  have hall : (spelling k).all (fun c => !isBlank c) = true := by cases k <;> decide
  simpa using all_eq_true.mp hall c hc

lemma isPlain_of_mem_spelling (hc : c ∈ spelling k) : isPlain c = true := by
  have hall : (spelling k).all isPlain = true := by cases k <;> decide
  exact all_eq_true.mp hall c hc

lemma takeWhile_of_target? (h : target? k cs = some r) : cs.takeWhile (· != '"') = spelling k := by
  by_cases hpre : (marker k).isPrefixOf cs
  · obtain ⟨rest, rfl⟩ := isPrefixOf_iff_prefix.mp hpre
    rw [marker_eq, append_assoc,
      takeWhile_append_of_pos (bne_quote_of_not_mem (quote_not_mem_spelling k))]
    simp
  · simp [target?, hpre] at h

lemma marker?_eq_none (h : ∀ k, (cs.dropWhile isBlank).takeWhile (· != '"') ≠ spelling k) :
    marker? cs = none := by
  have hnone : ∀ k, target? k (cs.dropWhile isBlank) = none := fun k =>
    Option.eq_none_iff_forall_ne_some.mpr fun r hr => h k (takeWhile_of_target? hr)
  simp [marker?, hnone]

lemma target?_of_spelling (k : BindingKind) (ht : '"' ∉ t) (rest : List Char) :
    target? k (spelling k ++ '"' :: (t ++ '"' :: rest)) = some (t, rest) := by
  have hpre : (marker k).isPrefixOf (spelling k ++ '"' :: (t ++ '"' :: rest)) = true :=
    isPrefixOf_iff_prefix.mpr ⟨t ++ '"' :: rest, by simp [marker_eq]⟩
  have hdrop : (spelling k ++ '"' :: (t ++ '"' :: rest)).drop (marker k).length =
      t ++ '"' :: rest := by
    rw [append_cons, ← marker_eq, drop_left]
  have hne := bne_quote_of_not_mem ht
  simp [target?, hpre, hdrop, dropWhile_append_of_pos hne, takeWhile_append_of_pos hne]

lemma marker?_of_spelling (k : BindingKind) (hb : ∀ c ∈ b, isBlank c = true) (ht : '"' ∉ t)
    (rest : List Char) : marker? (b ++ (spelling k ++ '"' :: (t ++ '"' :: rest))) =
      some ((k, String.ofList t), rest) := by
  have hskip : (b ++ (spelling k ++ '"' :: (t ++ '"' :: rest))).dropWhile isBlank =
      spelling k ++ '"' :: (t ++ '"' :: rest) := by
    rw [dropWhile_append_of_pos hb]
    cases k <;> rfl
  rw [marker?, hskip]
  cases k with
  | click => simp [target?_of_spelling .click ht]
  | model =>
    have hclick : target? .click (spelling .model ++ '"' :: (t ++ '"' :: rest)) = none := rfl
    simp [hclick, target?_of_spelling .model ht]

lemma stripTag_nil : stripTag [] = ([], []) := by
  rw [stripTag.eq_def]

lemma stripTag_of_marker? (h : marker? cs = some (m, more)) :
    stripTag cs = (m :: (stripTag more).1, (stripTag more).2) := by
  cases cs with
  | nil => exact absurd (marker?_length h) (Nat.not_lt_zero _)
  | cons c cs =>
    rw [stripTag.eq_def]
    dsimp only
    split
    · rename_i h'
      rw [h] at h'
      cases h'
      rfl
    · rename_i h'
      rw [h] at h'
      cases h'

lemma stripTag_of_marker?_eq_none (h : marker? (c :: cs) = none) :
    stripTag (c :: cs) = ((stripTag cs).1, c :: (stripTag cs).2) := by
  rw [stripTag.eq_def]
  dsimp only
  split
  · rename_i h'
    rw [h] at h'
    cases h'
  · rfl

/-! ## Pieces without markers -/

def Quiet (cs rest : List Char) : Prop :=
  ∀ s, s ≠ [] → s <:+ cs → ∀ k, (s ++ rest).takeWhile (· != '"') ≠ spelling k

/-- What is quiet and does not end in a blank stays. A blank at the end could belong to a marker
that follows. -/
lemma stripTag_of_quiet (h : Quiet cs rest) (hlast : ∀ c ∈ cs.getLast?, isBlank c = false) :
    stripTag (cs ++ rest) = ((stripTag rest).1, cs ++ (stripTag rest).2) := by
  induction cs with
  | nil => rfl
  | cons c cs ih =>
    have hstays : (c :: cs).dropWhile isBlank ≠ [] := by
      intro hall
      have hblank := dropWhile_eq_nil_iff.mp hall _ (getLast_mem (cons_ne_nil c cs))
      rw [hlast _ (getLast?_eq_some_getLast (cons_ne_nil c cs))] at hblank
      cases hblank
    have hnone : marker? (c :: (cs ++ rest)) = none := by
      refine marker?_eq_none fun k => ?_
      rw [← cons_append, dropWhile_append, if_neg (by simpa using hstays)]
      exact h _ hstays (dropWhile_suffix _) k
    rw [cons_append, stripTag_of_marker?_eq_none hnone, ih]
    · rfl
    · exact fun s hs hsuffix => h s hs (hsuffix.trans (suffix_cons c cs))
    · intro d hd
      refine hlast d ?_
      cases cs with
      | nil => cases hd
      | cons e cs => simpa using hd

lemma Quiet.append (hcs : Quiet cs (ds ++ rest)) (hds : Quiet ds rest) : Quiet (cs ++ ds) rest := by
  intro s hs hsuffix k
  obtain ⟨front, hfront⟩ := hsuffix
  rcases append_eq_append_iff.mp hfront with ⟨mid, hmid, rfl⟩ | ⟨mid, -, hmid⟩
  · cases mid with
    | nil => exact hds ds hs (suffix_refl ds) k
    | cons c mid =>
      rw [append_assoc]
      exact hcs (c :: mid) (cons_ne_nil _ _) ⟨front, hmid.symm⟩ k
  · exact hds s hs ⟨mid, hmid.symm⟩ k

lemma quiet_of_not_infix (hcs : ∀ k, ¬ spelling k <:+: cs)
    (hrest : ∀ c ∈ rest.head?, ∀ k, c ∉ spelling k) : Quiet cs rest := by
  intro s hs hsuffix k heq
  rw [takeWhile_append] at heq
  split at heq
  · cases rest with
    | nil =>
      rw [takeWhile_nil, append_nil] at heq
      exact hcs k (heq ▸ hsuffix.isInfix)
    | cons c rest =>
      have hmem : c ∉ s ++ (c :: rest).takeWhile (· != '"') := heq ▸ hrest c rfl k
      by_cases hq : c = '"'
      · rw [hq, takeWhile_cons_of_neg (by simp), append_nil] at heq
        exact hcs k (heq ▸ hsuffix.isInfix)
      · rw [takeWhile_cons_of_pos (by simpa using hq)] at hmem
        simp at hmem
  · have hfront := takeWhile_prefix (l := s) (· != '"')
    exact hcs k (heq ▸ hfront.isInfix.trans hsuffix.isInfix)

lemma quiet_quote (hq : '"' ∉ cs) (hcs : ∀ k, ¬ spelling k <:+ cs)
    (rest : List Char) : Quiet (cs ++ ['"']) rest := by
  intro s hs hsuffix k heq
  rcases suffix_concat_iff.mp hsuffix with rfl | ⟨t, rfl, ht⟩
  · exact hs rfl
  · have hne := bne_quote_of_not_mem fun hmem => hq (ht.subset hmem)
    rw [append_assoc, takeWhile_append_of_pos hne] at heq
    simp only [singleton_append, bne_self_eq_false, Bool.false_eq_true, not_false_eq_true,
      takeWhile_cons_of_neg, append_nil] at heq
    exact hcs k (heq ▸ ht)

/-! ## Numbers -/

lemma ordinals_of_numbered (h : Numbered n bs) (k : BindingKind) :
    (bs.filter fun b => b.kind == k).map ordinal =
      range' (n.of k) (bs.countP fun b => b.kind == k) := by
  induction bs generalizing n with
  | nil => rfl
  | cons b bs ih =>
    obtain ⟨hb, hbs⟩ := h
    by_cases hk : b.kind = k
    · subst hk
      rw [filter_cons_of_pos (by simp), countP_cons_of_pos (by simp), map_cons, hb,
        ih hbs, Count.of_bump_self, range'_succ]
    · rw [filter_cons_of_neg (by simpa using hk), countP_cons_of_neg (by simpa using hk),
        ih hbs, Count.of_bump_of_ne n (Ne.symm hk)]

end Binding

/-! ## Well-formed documents -/

namespace Markup

open Binding (spelling)

def reserved : List Char :=
  "data-z-".toList

/-- Characters of names: letters, digits, hyphens and all others but blanks, angle brackets, quotes
and equals signs. -/
def isNameChar (c : Char) : Bool :=
  isPlain c && !Text.isBlank c && c != '='

/-- The name of an attribute that is no marker. -/
structure Name where
  chars : List Char
  ne_nil : chars ≠ []
  isNameChar : ∀ c ∈ chars, isNameChar c = true
  not_reserved : ¬ reserved <:+: chars

/-- How a value is quoted. -/
inductive Quote where
  | double
  | single

def Quote.char : Quote → Char
  | .double => '"'
  | .single => '\''

/-- An attribute of an opening tag. Values may have angle brackets and the other kind of quotes;
the target of a marker is quoted with double quotes. -/
inductive Attribute where
  | bare (name : Name)
  | valued (name : Name) (quote : Quote) (value : List Char) (hquote : quote.char ∉ value)
      (hvalue : ¬ reserved <:+: value)
  | marker (kind : BindingKind) (target : List Char) (htarget : '"' ∉ target)

/-- An attribute with the blanks before it. -/
structure Entry where
  before : List Char
  isBlank_before : ∀ c ∈ before, isBlank c = true
  before_ne_nil : before ≠ []
  attr : Attribute

/-- An opening tag. Its name is a letter and more characters; blanks may stand behind the last
attribute. -/
structure OpeningTag where
  letter : Char
  isAlpha_letter : letter.isAlpha = true
  name : List Char
  isNameChar_name : ∀ c ∈ name, isNameChar c = true
  entries : List Entry
  trail : List Char
  isBlank_trail : ∀ c ∈ trail, isBlank c = true

/-- A part of a document. -/
inductive Part where
  | text (chars : List Char) (hchars : '<' ∉ chars)
  | closing (name : List Char) (hname : ∀ c ∈ name, c ≠ '<' ∧ c ≠ '>')
  | opening (tag : OpeningTag)

namespace Attribute

def print : Attribute → List Char
  | .bare name => name.chars
  | .valued name quote value _ _ => name.chars ++ '=' :: (quote.char :: (value ++ [quote.char]))
  | .marker kind target _ => spelling kind ++ '"' :: (target ++ ['"'])

def marked? : Attribute → Option (BindingKind × String)
  | .marker kind target _ => some (kind, String.ofList target)
  | _ => none

end Attribute

def Entry.print (e : Entry) : List Char :=
  e.before ++ e.attr.print

namespace OpeningTag

def printRest (t : OpeningTag) : List Char :=
  t.entries.flatMap Entry.print ++ t.trail

def print (t : OpeningTag) : List Char :=
  '<' :: t.letter :: (t.name ++ t.printRest ++ ['>'])

/-- The tag without its markers and the blanks before them. -/
def stripped (t : OpeningTag) : OpeningTag :=
  { t with entries := t.entries.filter fun e => e.attr.marked?.isNone }

def markers (t : OpeningTag) : List (BindingKind × String) :=
  t.entries.filterMap fun e => e.attr.marked?

end OpeningTag

namespace Part

def print : Part → List Char
  | .text chars _ => chars
  | .closing name _ => '<' :: '/' :: (name ++ ['>'])
  | .opening tag => tag.print

def stripped : Part → Part
  | .opening tag => .opening tag.stripped
  | p => p

def markers : Part → List (BindingKind × String)
  | .opening tag => tag.markers
  | _ => []

/-- The markers of a part. Models are flagged as their tag is. -/
def flagged (flag : OpeningTag → Bool) : Part → List Marker
  | .opening tag => tag.markers.map fun m => ⟨m.1, m.2, m.1 == .model && flag tag⟩
  | _ => []

end Part

def print (parts : List Part) : List Char :=
  parts.flatMap Part.print

/-! ### Pieces of tags are closed -/

lemma isPlain_of_isNameChar (h : isNameChar c = true) : isPlain c = true := by
  simp only [isNameChar, Bool.and_eq_true] at h
  exact h.1.1

lemma isBlank_of_isNameChar (h : isNameChar c = true) : isBlank c = false := by
  simp only [isNameChar, Bool.and_eq_true, Bool.not_eq_true'] at h
  exact h.1.2

lemma isPlain_of_isBlank (h : isBlank c = true) : isPlain c = true := by
  simp only [isPlain, Bool.and_eq_true, bne_iff_ne]
  refine ⟨⟨⟨?_, ?_⟩, ?_⟩, ?_⟩ <;> rintro rfl <;> revert h <;> decide

lemma Quote.char_eq (q : Quote) : q.char = '"' ∨ q.char = '\'' := by
  cases q
  · exact .inl rfl
  · exact .inr rfl

lemma closed_attribute (a : Attribute) : Closed a.print := by
  cases a with
  | bare name =>
    exact closed_of_isPlain fun c hc => isPlain_of_isNameChar (name.isNameChar c hc)
  | valued name quote value hquote hvalue =>
    rw [Attribute.print, append_cons]
    refine .append (closed_of_isPlain fun c hc => ?_)
      (closed_quoted quote.char_eq hquote)
    rcases mem_append.mp hc with hc | hc
    · exact isPlain_of_isNameChar (name.isNameChar c hc)
    · rw [mem_singleton.mp hc]
      decide
  | marker kind target htarget =>
    exact .append (closed_of_isPlain fun c hc => isPlain_of_mem_spelling hc)
      (closed_quoted (.inl rfl) htarget)

lemma closed_entry (e : Entry) : Closed e.print :=
  .append (closed_of_isPlain fun c hc => isPlain_of_isBlank (e.isBlank_before c hc))
    (closed_attribute e.attr)

lemma closed_entries (es : List Entry) : Closed (es.flatMap Entry.print) := by
  induction es with
  | nil => exact closed_of_isPlain nofun
  | cons e es ih =>
    exact (closed_entry e).append ih

lemma tag?_print (t : OpeningTag) (rest : List Char) :
    tag? (t.print ++ rest) = some (t.print, rest) := by
  have hname : Closed t.name :=
    closed_of_isPlain fun c hc => isPlain_of_isNameChar (t.isNameChar_name c hc)
  have htrail : Closed t.trail :=
    closed_of_isPlain fun c hc => isPlain_of_isBlank (t.isBlank_trail c hc)
  have htag := tag?_of_closed t.isAlpha_letter
    (hname.append ((closed_entries t.entries).append htrail)) rest
  simpa [OpeningTag.print, OpeningTag.printRest] using htag

/-! ### Attributes are quiet unless they are markers -/

lemma infix_append_cons {l a : List Char} (hc : c ∉ l) (h : l <:+: a ++ c :: b) :
    l <:+: a ∨ l <:+: b := by
  obtain ⟨front, back, heq⟩ := h
  rw [append_assoc] at heq
  rcases append_eq_append_iff.mp heq with ⟨mid, rfl, hmid⟩ | ⟨mid, rfl, hmid⟩
  · rcases append_eq_append_iff.mp hmid with ⟨mid', rfl, -⟩ | ⟨mid', rfl, hmid'⟩
    · exact .inl ⟨front, mid', by simp⟩
    · cases mid' with
      | nil => exact .inl ⟨front, [], by simp⟩
      | cons d mid' =>
        cases hmid'
        exact absurd (by simp) hc
  · cases mid with
    | nil =>
      cases l with
      | nil => exact .inl ⟨[], a, rfl⟩
      | cons d l =>
        cases hmid
        exact absurd (by simp) hc
    | cons d mid =>
      cases hmid
      exact .inr ⟨mid, back, by simp⟩

lemma not_reserved_append_cons {a : List Char} (ha : ¬ reserved <:+: a) (hc : c ∉ reserved)
    (hb : ¬ reserved <:+: b) : ¬ reserved <:+: a ++ c :: b :=
  fun h => (infix_append_cons hc h).elim ha hb

lemma isBlank_of_mem_reserved (hc : c ∈ reserved) : isBlank c = false := by
  have hall : reserved.all (fun c => !isBlank c) = true := by decide
  simpa using all_eq_true.mp hall c hc

lemma not_reserved_of_isBlank (hb : ∀ c ∈ b, isBlank c = true)
    (hcs : ¬ reserved <:+: cs) : ¬ reserved <:+: b ++ cs := by
  induction b with
  | nil => exact hcs
  | cons c b ih =>
    obtain ⟨hc, hb⟩ := forall_mem_cons.mp hb
    refine not_reserved_append_cons (a := []) (by decide) (fun hmem => ?_) (ih hb)
    rw [isBlank_of_mem_reserved hmem] at hc
    cases hc

lemma not_reserved_attribute (ha : a.marked? = none) : ¬ reserved <:+: a.print := by
  cases a with
  | bare name => exact name.not_reserved
  | valued name quote value hquote hvalue =>
    have hchar : quote.char ∉ reserved := by cases quote <;> decide
    have hend : ¬ reserved <:+: value ++ [quote.char] :=
      not_reserved_append_cons hvalue hchar (by decide)
    exact not_reserved_append_cons name.not_reserved (by decide)
      (not_reserved_append_cons (a := []) (by decide) hchar hend)
  | marker => cases ha

lemma reserved_infix_spelling (k : BindingKind) : reserved <:+: spelling k := by
  cases k
  · exact ⟨[], "click=".toList, rfl⟩
  · exact ⟨[], "model=".toList, rfl⟩

/-- What may follow an attribute or the name of a tag. -/
def isDelimiter (c : Char) : Bool :=
  isBlank c || c == '>'

lemma not_mem_spelling_of_isDelimiter (hc : isDelimiter c = true) (k : BindingKind) :
    c ∉ spelling k := by
  intro hmem
  rw [isDelimiter, isBlank_of_mem_spelling hmem, Bool.false_or, beq_iff_eq] at hc
  subst hc
  revert hmem
  cases k <;> decide

lemma quiet_entry {e : Entry} (he : e.attr.marked? = none)
    (hrest : ∀ c ∈ rest.head?, isDelimiter c = true) : Quiet e.print rest := by
  refine quiet_of_not_infix (fun k h => ?_)
    fun c hc k => not_mem_spelling_of_isDelimiter (hrest c hc) k
  exact not_reserved_of_isBlank e.isBlank_before (not_reserved_attribute he)
    ((reserved_infix_spelling k).trans h)

lemma isBlank_last_attribute (ha : a.marked? = none) :
    a.print ≠ [] ∧ ∀ c ∈ a.print.getLast?, isBlank c = false := by
  cases a with
  | bare name =>
    refine ⟨name.ne_nil, fun c hc => ?_⟩
    exact isBlank_of_isNameChar (name.isNameChar c (mem_of_getLast? hc))
  | valued name quote value hquote hvalue =>
    refine ⟨by simp [Attribute.print], fun c hc => ?_⟩
    simp only [Attribute.print, ← cons_append, ← append_assoc, getLast?_concat,
      Option.mem_some_iff] at hc
    subst hc
    cases quote <;> decide
  | marker => cases ha

lemma print_of_marked? (ha : a.marked? = some m) :
    ∃ target, '"' ∉ target ∧ m.2 = String.ofList target ∧
      a.print = spelling m.1 ++ '"' :: (target ++ ['"']) := by
  cases a with
  | marker kind target htarget =>
    cases ha
    exact ⟨target, htarget, rfl, rfl⟩
  | _ => cases ha

variable {trail : List Char}

lemma isDelimiter_head (es : List Entry) (htrail : ∀ c ∈ trail, isBlank c = true) :
    ∀ c ∈ (es.flatMap Entry.print ++ (trail ++ ['>'])).head?, isDelimiter c = true := by
  have hblank {cs rest : List Char} (hcs : ∀ c ∈ cs, isBlank c = true) (hne : cs ≠ []) :
      ∀ c ∈ (cs ++ rest).head?, isDelimiter c = true := by
    intro c hc
    rw [head?_append_of_ne_nil _ hne] at hc
    simp [isDelimiter, hcs c (mem_of_head? hc)]
  cases es with
  | nil =>
    rw [flatMap_nil, nil_append]
    cases trail with
    | nil =>
      intro c hc
      cases hc
      rfl
    | cons d trail => exact hblank htrail (cons_ne_nil d trail)
  | cons e es =>
    rw [flatMap_cons, Entry.print, append_assoc, append_assoc]
    exact hblank e.isBlank_before e.before_ne_nil

lemma stripTag_entries (es : List Entry) (htrail : ∀ c ∈ trail, isBlank c = true) :
    stripTag (es.flatMap Entry.print ++ (trail ++ ['>'])) = (es.filterMap fun e => e.attr.marked?,
        (es.filter fun e => e.attr.marked?.isNone).flatMap Entry.print ++ (trail ++ ['>'])) := by
  induction es with
  | nil =>
    have hquiet : Quiet (trail ++ ['>']) [] := by
      refine quiet_of_not_infix (fun k h => ?_) nofun
      have hd : 'd' ∈ trail ++ ['>'] := h.subset (by cases k <;> decide)
      rcases mem_append.mp hd with hd | hd
      · exact absurd (htrail _ hd) (by decide)
      · exact absurd hd (by decide)
    have hstrip := stripTag_of_quiet hquiet (by simp; decide)
    rw [append_nil] at hstrip
    rw [flatMap_nil, nil_append, hstrip, stripTag_nil]
    simp
  | cons e es ih =>
    rw [flatMap_cons, append_assoc]
    cases he : e.attr.marked? with
    | none =>
      -- The blanks in front stay because of the attribute behind them.
      obtain ⟨hne, hlast⟩ := isBlank_last_attribute he
      rw [← getLast?_append_of_ne_nil e.before hne] at hlast
      rw [stripTag_of_quiet (quiet_entry he (isDelimiter_head es htrail)) hlast, ih]
      simp [he]
    | some m =>
      obtain ⟨kind, word⟩ := m
      obtain ⟨target, htarget, rfl, hprint⟩ := print_of_marked? he
      have hstrip := stripTag_of_marker? (marker?_of_spelling kind e.isBlank_before
        htarget (es.flatMap Entry.print ++ (trail ++ ['>'])))
      rw [ih] at hstrip
      simpa [Entry.print, hprint, he] using hstrip

lemma stripTag_print (t : OpeningTag) : stripTag t.print = (t.markers, t.stripped.print) := by
  have hhead : ∀ c ∈ '<' :: t.letter :: t.name, c ≠ '=' ∧ isBlank c = false := by
    have hletter := isAlpha_iff.mp t.isAlpha_letter
    refine forall_mem_cons.mpr ⟨by decide, forall_mem_cons.mpr ⟨⟨?_, ?_⟩, fun c hc => ?_⟩⟩
    · intro h
      rw [h] at hletter
      revert hletter
      decide
    · exact isBlank_of_isAlphabetic (isAlphabetic_of_isAlpha t.isAlpha_letter)
    · have hc := t.isNameChar_name c hc
      refine ⟨?_, isBlank_of_isNameChar hc⟩
      simp only [isNameChar, Bool.and_eq_true, bne_iff_ne] at hc
      exact hc.2
  have hquiet : Quiet ('<' :: t.letter :: t.name)
      (t.entries.flatMap Entry.print ++ (t.trail ++ ['>'])) := by
    refine quiet_of_not_infix (fun k h => ?_) fun c hc k =>
      not_mem_spelling_of_isDelimiter (isDelimiter_head t.entries t.isBlank_trail c hc) k
    -- Every marker has an equals sign, and the name of a tag has none.
    exact (hhead '=' (h.subset (by cases k <;> decide))).1 rfl
  have hlast : ∀ c ∈ ('<' :: t.letter :: t.name).getLast?, isBlank c = false :=
    fun c hc => (hhead c (mem_of_getLast? hc)).2
  have hstrip := stripTag_of_quiet hquiet hlast
  rw [stripTag_entries t.entries t.isBlank_trail] at hstrip
  simpa [OpeningTag.print, OpeningTag.printRest, OpeningTag.stripped, OpeningTag.markers]
    using hstrip

/-! ### Documents -/

lemma extractFrom_append_of_not_mem (n : Count) (h : '<' ∉ cs)
    (rest : List Char) : extractFrom n (cs ++ rest) =
      (cs ++ (extractFrom n rest).1, (extractFrom n rest).2) := by
  induction cs with
  | nil => rfl
  | cons c cs ih =>
    simp only [mem_cons, not_or] at h
    have hnone : tag? (c :: (cs ++ rest)) = none := by
      rw [tag?.eq_2]
      intro d ds heq
      exact h.1 (cons.inj heq).1.symm
    rw [cons_append, extractFrom_char n hnone, ih h.2]
    rfl

/-- What is found in a document: its text without markers, and the markers in order. -/
lemma extractFrom_print (n : Count) (parts : List Part) :
    (extractFrom n (print parts)).1 = print (parts.map Part.stripped) ∧
      (extractFrom n (print parts)).2.map toMarker =
        parts.flatMap (Part.flagged fun t => mentionsCheckbox t.print) := by
  induction parts generalizing n with
  | nil =>
    rw [print, flatMap_nil, extractFrom]
    exact ⟨rfl, rfl⟩
  | cons p parts ih =>
    rw [print, flatMap_cons, ← print]
    cases p with
    | text chars hchars =>
      rw [Part.print, extractFrom_append_of_not_mem n hchars]
      exact ⟨congrArg (chars ++ ·) (ih n).1, (ih n).2⟩
    | closing name hname =>
      have hinner : '<' ∉ '/' :: (name ++ ['>']) := by
        simpa using fun h => (hname _ h).1 rfl
      -- A bracket that no letter follows is a character like any other.
      have hnone : tag? ('<' :: ('/' :: (name ++ ['>']) ++ print parts)) = none := rfl
      rw [Part.print, cons_append, extractFrom_char n hnone, extractFrom_append_of_not_mem n hinner]
      exact ⟨congrArg ('<' :: '/' :: (name ++ ['>']) ++ ·) (ih n).1, (ih n).2⟩
    | opening t =>
      have htag : tag? ('<' :: (t.letter :: (t.name ++ t.printRest ++ ['>']) ++
          print parts)) = some (t.print, print parts) := tag?_print t (print parts)
      obtain ⟨-, -, hnumber⟩ := number_spec (mentionsCheckbox t.print) n t.markers
      rw [Part.print, OpeningTag.print, cons_append, extractFrom_tag n htag, stripTag_print]
      refine ⟨congrArg (t.stripped.print ++ ·) (ih _).1, ?_⟩
      rw [map_append, (ih _).2, hnumber]
      rfl

/-- From a well-formed document, extraction gives the document without its markers and the blanks
before them, and one binding for each marker, in document order, with its kind and target. The
bindings of each kind are numbered from zero on. -/
theorem extract_print (parts : List Part) :
    (Binding.extract (String.ofList (print parts))).markup =
      String.ofList (print (parts.map Part.stripped)) ∧
    (Binding.extract (String.ofList (print parts))).bindings.map (fun b => (b.kind, b.target)) =
      parts.flatMap Part.markers ∧
    ∀ k, ((Binding.extract (String.ofList (print parts))).bindings.filter
        fun b => b.kind == k).map Binding.ordinal =
      List.range ((parts.flatMap Part.markers).countP fun m => m.1 == k) := by
  obtain ⟨hmarkup, hflagged⟩ := extractFrom_print {} parts
  have hmarkers : (extractFrom {} (print parts)).2.map (fun b => (b.kind, b.target)) =
      parts.flatMap Part.markers := by
    have hkinds := congrArg (map fun m : Marker => (m.kind, m.target)) hflagged
    rw [map_map, map_flatMap] at hkinds
    refine hkinds.trans (flatMap_congr fun p hp => ?_)
    cases p <;> simp [Part.flagged, Part.markers, Function.comp_def]
  refine ⟨?_, ?_, fun k => ?_⟩
  · rw [Binding.extract, String.toList_ofList]
    exact congrArg String.ofList hmarkup
  · rw [Binding.extract, String.toList_ofList]
    exact hmarkers
  · have hzero : ({} : Count).of k = 0 := by cases k <;> rfl
    rw [ordinals_of_numbered (numbered_extract _), hzero, ← hmarkers,
      List.countP_map, List.range_eq_range', Binding.extract, String.toList_ofList]
    rfl

end Markup

end LiveMarkup
