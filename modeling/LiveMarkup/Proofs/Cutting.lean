import LiveMarkup.Template.Node
import Mathlib.Data.List.Infix
import Mathlib.Data.List.TakeWhile

/-!
# Where tokens end

Templates are cut into tokens without regard to what surrounds them, so a token could run on into
whatever stands behind it. It does so in a few cases only: a directive name takes in letters, a lone
brace pairs up with the next one, and a closing tag takes its `>`. Everywhere else a mark that
stands behind a text is met by the lexer exactly where it stands.

`Sealed r m` is the condition under which the lexer, started on `r` with `m` behind it, comes to
`m`. `scan_region` says what it met on the way: tokens whose texts make up `r`.
-/

namespace LiveMarkup

open List String

variable {c : Char} {cs rest : List Char} {tag : String}

namespace Token

/-! ## Scanning

The lexer as it reads characters. That it reads bytes makes no difference: `tokenize_eq_scan`. -/

def isDirectiveChar (c : Char) : Bool :=
  c.isAlphanum || c == '_'

def isTagChar (c : Char) : Bool :=
  c.isAlphanum || c == '-' || c == '.'

/-- Whether something other than plain text may start here. -/
def markerAt : List Char → Bool
  | '\x7b' :: '\x7b' :: _ => true
  | '\x7d' :: '\x7d' :: _ => true
  | '<' :: 'x' :: '-' :: _ => true
  | '<' :: '/' :: 'x' :: '-' :: _ => true
  | '@' :: _ => true
  | '(' :: _ => true
  | ')' :: _ => true
  | '>' :: _ => true
  | _ => false

def splitPlain : List Char → List Char × List Char
  | [] => ([], [])
  | c :: cs =>
    if markerAt (c :: cs) then ([], c :: cs)
    else
      let r := splitPlain cs
      (c :: r.1, r.2)

/-- Plain text: the first character whatever it is, then all up to the next marker. -/
def plain (c : Char) (cs : List Char) : Token × List Char :=
  (.text (String.ofList (c :: (splitPlain cs).1)), (splitPlain cs).2)

def next : List Char → Token × List Char
  | [] => (.eof, [])
  | '\x7b' :: '\x7b' :: cs => (.echoStart, cs)
  | '\x7d' :: '\x7d' :: cs => (.echoEnd, cs)
  | '@' :: cs =>
    if (cs.takeWhile isDirectiveChar).isEmpty then plain '@' cs
    else
      (.directive (String.ofList (cs.takeWhile isDirectiveChar)), cs.dropWhile isDirectiveChar)
  | '<' :: 'x' :: '-' :: cs =>
    (.tagOpen (String.ofList ('x' :: '-' :: cs.takeWhile isTagChar)), cs.dropWhile isTagChar)
  | '<' :: '/' :: 'x' :: '-' :: cs =>
    match cs.dropWhile isTagChar with
    | '>' :: rest => (.tagEnd (String.ofList ('x' :: '-' :: cs.takeWhile isTagChar)), rest)
    | _ => plain '<' ('/' :: 'x' :: '-' :: cs)
  | '>' :: cs => (.tagClose, cs)
  | '(' :: cs => (.parenStart, cs)
  | ')' :: cs => (.parenEnd, cs)
  | c :: cs => plain c cs

theorem splitPlain_length (cs : List Char) : (splitPlain cs).2.length ≤ cs.length := by
  induction cs with
  | nil => simp [splitPlain]
  | cons c cs ih =>
    simp only [splitPlain]
    split
    · exact Nat.le_refl _
    · exact Nat.le_succ_of_le ih

theorem plain_length (c : Char) (cs : List Char) : (plain c cs).2.length < (c :: cs).length :=
  Nat.lt_succ_of_le (splitPlain_length cs)

/-- Before the end of the source every token uses up at least one character. -/
theorem next_length {cs : List Char} (h : cs ≠ []) : (next cs).2.length < cs.length := by
  have drop (p : Char → Bool) (l : List Char) : (l.dropWhile p).length ≤ l.length :=
    (List.dropWhile_suffix p).length_le
  unfold next
  split
  · exact absurd rfl h
  · simp only [List.length_cons]; omega
  · simp only [List.length_cons]; omega
  · rename_i cs
    split
    · exact plain_length _ _
    · exact Nat.lt_succ_of_le (drop _ _)
  · rename_i cs
    have := drop isTagChar cs
    simp only [List.length_cons]
    omega
  · rename_i cs
    split
    · rename_i rest hr
      have := drop isTagChar cs
      rw [hr] at this
      simp only [List.length_cons] at this ⊢
      omega
    · exact plain_length _ _
  · simp
  · simp
  · simp
  · exact plain_length _ _

def scan (cs : List Char) : List Token :=
  if h : cs = [] then [.eof]
  else
    have := next_length h
    (next cs).1 :: scan (next cs).2
termination_by cs.length

@[simp]
lemma scan_nil : scan [] = [.eof] := by
  rw [scan, dif_pos rfl]

lemma scan_cons (h : cs ≠ []) : scan cs = (next cs).1 :: scan (next cs).2 := by
  rw [scan, dif_neg h]

lemma scan_of_next (h : cs ≠ []) (hn : next cs = (t, rest)) : scan cs = t :: scan rest := by
  rw [scan_cons h, hn]

/-! ## Plain text -/

/-- Characters that never belong to a mark. -/
def isPlain (c : Char) : Bool :=
  !("@\x7b\x7d<>()".toList.contains c)

lemma isPlain_iff : isPlain c = true ↔
    c ≠ '@' ∧ c ≠ '\x7b' ∧ c ≠ '\x7d' ∧ c ≠ '<' ∧ c ≠ '>' ∧ c ≠ '(' ∧ c ≠ ')' := by
  simp [isPlain]

lemma markerAt_of_isPlain (h : isPlain c = true) (cs : List Char) : markerAt (c :: cs) = false := by
  rw [isPlain_iff] at h
  unfold markerAt
  split <;> simp_all

lemma next_of_isPlain (h : isPlain c = true) (cs : List Char) : next (c :: cs) = plain c cs := by
  rw [isPlain_iff] at h
  unfold next
  split <;> simp_all

def Ends (rest : List Char) : Prop :=
  rest = [] ∨ markerAt rest = true

lemma splitPlain_of_ends (h : Ends rest) : splitPlain rest = ([], rest) := by
  cases rest with
  | nil => rfl
  | cons c cs =>
    have hm : markerAt (c :: cs) = true := h.resolve_left (by simp)
    rw [splitPlain, if_pos hm]

lemma splitPlain_append (hcs : ∀ c ∈ cs, isPlain c = true)
    (h : Ends rest) : splitPlain (cs ++ rest) = (cs, rest) := by
  induction cs with
  | nil => exact splitPlain_of_ends h
  | cons c cs ih =>
    have hc := markerAt_of_isPlain (hcs c (by simp)) (cs ++ rest)
    rw [cons_append, splitPlain, if_neg (by simp [hc]), ih fun d hd => hcs d (by simp [hd])]

lemma scan_text (hs : s ≠ "") (hplain : ∀ c ∈ s.toList, isPlain c = true) (h : Ends rest) :
    scan (s.toList ++ rest) = .text s :: scan rest := by
  cases hc : s.toList with
  | nil => exact absurd (toList_eq_nil_iff.mp hc) hs
  | cons c cs =>
    rw [hc] at hplain
    refine scan_of_next (by simp) ?_
    rw [cons_append, next_of_isPlain (hplain c (by simp)), plain,
      splitPlain_append (fun d hd => hplain d (by simp [hd])) h, ← hc, ofList_toList]

/-! ## Names -/

lemma takeWhile_append_of_all {α : Type} {p : α → Bool} {cs rest : List α}
    (hcs : ∀ c ∈ cs, p c = true) (h : ∀ c ∈ rest.head?, p c = false) :
    (cs ++ rest).takeWhile p = cs ∧ (cs ++ rest).dropWhile p = rest := by
  have hrest : rest.takeWhile p = [] ∧ rest.dropWhile p = rest := by
    cases rest with
    | nil => simp
    | cons c cs => simp [h c (by simp)]
  rw [takeWhile_append_of_pos hcs, dropWhile_append_of_pos hcs, hrest.1, hrest.2]
  simp

lemma scan_directive (hne : name ≠ "") (hname : ∀ c ∈ name.toList, isDirectiveChar c = true)
    (h : ∀ c ∈ rest.head?, isDirectiveChar c = false) :
    scan ('@' :: (name.toList ++ rest)) = .directive name :: scan rest := by
  obtain ⟨htake, hdrop⟩ := takeWhile_append_of_all hname h
  have hfull : name.toList.isEmpty = false := by
    simpa [toList_eq_nil_iff] using hne
  refine scan_of_next (by simp) ?_
  rw [next, htake, hdrop, hfull, ofList_toList]
  simp

def isTag (tag : String) : Bool :=
  match tag.toList with
  | 'x' :: '-' :: cs => cs.all isTagChar
  | _ => false

lemma isTag_iff : isTag tag = true ↔
    ∃ cs, tag.toList = 'x' :: '-' :: cs ∧ ∀ c ∈ cs, isTagChar c = true := by
  unfold isTag
  split
  · rename_i cs hcs
    rw [hcs]
    simp
  · rename_i hno
    simp only [Bool.false_eq_true, false_iff]
    rintro ⟨cs, hcs, -⟩
    exact hno cs hcs

lemma scan_tagOpen (htag : isTag tag = true) (h : ∀ c ∈ rest.head?, isTagChar c = false) :
    scan ('<' :: (tag.toList ++ rest)) = .tagOpen tag :: scan rest := by
  obtain ⟨cs, hcs, hall⟩ := isTag_iff.mp htag
  obtain ⟨htake, hdrop⟩ := takeWhile_append_of_all hall h
  refine scan_of_next (by simp) ?_
  rw [hcs, cons_append, cons_append, next, htake, hdrop, ← hcs, ofList_toList]

lemma scan_tagEnd (htag : isTag tag = true) :
    scan ('<' :: '/' :: (tag.toList ++ '>' :: rest)) = .tagEnd tag :: scan rest := by
  obtain ⟨cs, hcs, hall⟩ := isTag_iff.mp htag
  have hclose : ∀ c ∈ ('>' :: rest).head?, isTagChar c = false := by
    simp [isTagChar]
  obtain ⟨htake, hdrop⟩ := takeWhile_append_of_all hall hclose
  refine scan_of_next (by simp) ?_
  rw [hcs, cons_append, cons_append, next, htake, hdrop, ← hcs, ofList_toList]
  rfl

section

variable (rest)

lemma scan_echoStart : scan ('\x7b' :: '\x7b' :: rest) = .echoStart :: scan rest :=
  scan_of_next (by simp) rfl

lemma scan_echoEnd : scan ('\x7d' :: '\x7d' :: rest) = .echoEnd :: scan rest :=
  scan_of_next (by simp) rfl

lemma scan_parenStart : scan ('(' :: rest) = .parenStart :: scan rest :=
  scan_of_next (by simp) rfl

lemma scan_parenEnd : scan (')' :: rest) = .parenEnd :: scan rest :=
  scan_of_next (by simp) rfl

lemma scan_tagClose : scan ('>' :: rest) = .tagClose :: scan rest :=
  scan_of_next (by simp) rfl

end

/-! ## The text of a token -/

lemma splitPlain_eq (cs : List Char) : (splitPlain cs).1 ++ (splitPlain cs).2 = cs := by
  induction cs with
  | nil => rfl
  | cons c cs ih =>
    rw [splitPlain]
    split
    · rfl
    · simpa using ih

lemma plain_source (c : Char) (cs : List Char) :
    (plain c cs).1.source.toList ++ (plain c cs).2 = c :: cs := by
  simp [plain, source, splitPlain_eq]

/-- A token and what follows it make up the source. -/
lemma next_source (h : cs ≠ []) : (next cs).1.source.toList ++ (next cs).2 = cs := by
  unfold next
  split
  · exact absurd rfl h
  · simp [source]
  · simp [source]
  · rename_i cs
    split
    · exact plain_source _ _
    · simp [source, List.takeWhile_append_dropWhile]
  · rename_i cs
    simp [source, List.takeWhile_append_dropWhile]
  · rename_i cs
    split
    · rename_i rest hrest
      have hcs := takeWhile_append_dropWhile (p := isTagChar) (l := cs)
      rw [hrest] at hcs
      simp [source, hcs]
    · exact plain_source _ _
  · simp [source]
  · simp [source]
  · simp [source]
  · exact plain_source _ _

/-- A token is a parenthesis, or there is none in its text. -/
def IsWhole (t : Token) : Prop :=
  t = .parenStart ∨ t = .parenEnd ∨ ∀ c ∈ t.source.toList, c ≠ '(' ∧ c ≠ ')'

lemma not_paren_of_mem_splitPlain (h : c ∈ (splitPlain cs).1) : c ≠ '(' ∧ c ≠ ')' := by
  induction cs with
  | nil => simp [splitPlain] at h
  | cons d cs ih =>
    rw [splitPlain] at h
    split at h
    · simp at h
    · rename_i hmark
      rcases mem_cons.mp h with rfl | hmem
      · constructor
        · rintro rfl
          exact hmark rfl
        · rintro rfl
          exact hmark rfl
      · exact ih hmem

lemma isWhole_plain (hc : c ≠ '(' ∧ c ≠ ')') (cs : List Char) : IsWhole (plain c cs).1 := by
  refine .inr (.inr fun d hd => ?_)
  simp only [plain, source, toList_ofList, mem_cons] at hd
  rcases hd with rfl | hd
  · exact hc
  · exact not_paren_of_mem_splitPlain hd

lemma not_paren_of_isDirectiveChar (h : isDirectiveChar c = true) : c ≠ '(' ∧ c ≠ ')' := by
  constructor <;> rintro rfl <;> simp [isDirectiveChar] at h

lemma not_paren_of_isTagChar (h : isTagChar c = true) : c ≠ '(' ∧ c ≠ ')' := by
  constructor <;> rintro rfl <;> simp [isTagChar] at h

lemma not_paren_of_mem (hcs : (cs.all fun d => d != '(' && d != ')') = true)
    (hc : c ∈ cs) : c ≠ '(' ∧ c ≠ ')' := by
  simpa using all_eq_true.mp hcs c hc

lemma isWhole_next (cs : List Char) : IsWhole (next cs).1 := by
  have htag : ∀ {c : Char} {cs : List Char}, c ∈ 'x' :: '-' :: cs.takeWhile isTagChar →
      c ≠ '(' ∧ c ≠ ')' := by
    intro c cs hc
    simp only [mem_cons] at hc
    rcases hc with rfl | rfl | hc
    · decide
    · decide
    · exact not_paren_of_isTagChar (mem_takeWhile_imp hc)
  unfold next
  split
  · exact .inr (.inr (by simp [source]))
  · exact .inr (.inr (by simp [source]))
  · exact .inr (.inr (by simp [source]))
  · split
    · exact isWhole_plain (by decide) _
    · refine .inr (.inr fun c hc => ?_)
      simp only [source, toList_append, toList_ofList, mem_append] at hc
      rcases hc with hc | hc
      · exact not_paren_of_mem (by decide) hc
      · exact not_paren_of_isDirectiveChar (mem_takeWhile_imp hc)
  · refine .inr (.inr fun c hc => ?_)
    simp only [source, toList_append, toList_ofList, mem_append] at hc
    rcases hc with hc | hc
    · exact not_paren_of_mem (by decide) hc
    · exact htag hc
  · split
    · refine .inr (.inr fun c hc => ?_)
      simp only [source, toList_append, toList_ofList, mem_append] at hc
      rcases hc with (hc | hc) | hc
      · exact not_paren_of_mem (by decide) hc
      · exact htag hc
      · exact not_paren_of_mem (by decide) hc
    · exact isWhole_plain (by decide) _
  · exact .inr (.inr (by simp [source]))
  · exact .inl rfl
  · exact .inr (.inl rfl)
  · rename_i c cs _ _ _ _ _ _ hopen hclose
    exact isWhole_plain ⟨hopen, hclose⟩ _

/-! ## Coming to a mark

While the lexer is inside a region, what is left of the source always ends in the mark behind the
region. So the facts about `next` are facts about suffixes. -/

/-- The marks that may stand behind a region: the end of an echo, of arguments and of a tag. -/
inductive Sealed (region : List Char) : List Char → Prop
  | echo (rest : List Char) (h : region.getLast? ≠ some '\x7d') :
    Sealed region ('\x7d' :: '\x7d' :: rest)
  | arguments (rest : List Char) : Sealed region (')' :: rest)
  | tag (rest : List Char) (h : '<' ∉ region) : Sealed region ('>' :: rest)

variable {region mark : List Char}

lemma Sealed.markerAt (h : Sealed region mark) : markerAt mark = true := by
  cases h <;> rfl

lemma Sealed.head (h : Sealed region mark) : ∃ c rest, mark = c :: rest ∧
    c ∈ ['\x7d', ')', '>'] := by
  cases h <;> simp

lemma Sealed.ne_cons (h : Sealed region mark)
    (hc : c ∉ ['\x7d', ')', '>']) : mark ≠ c :: rest := by
  obtain ⟨d, cs, rfl, hd⟩ := h.head
  intro heq
  obtain ⟨rfl, -⟩ := cons.inj heq
  exact hc hd

lemma Sealed.of_append {front : List Char} (h : Sealed (front ++ region) mark) :
    Sealed region mark := by
  cases h with
  | echo rest hlast =>
    refine .echo rest fun hend => hlast ?_
    rw [getLast?_append, hend]
    rfl
  | arguments rest => exact .arguments rest
  | tag rest hopen => exact .tag rest fun hmem => hopen (by simp [hmem])

lemma suffix_of_append_eq (hr : region ≠ []) (h : region ++ mark = c :: cs) : mark <:+ cs := by
  obtain ⟨rfl, -⟩ | ⟨region', rfl, rfl⟩ := append_eq_cons_iff.mp h
  · exact absurd rfl hr
  · exact suffix_append region' mark

section

variable (h : Sealed region mark)
include h

lemma Sealed.suffix_of_cons (hc : c ∉ ['\x7d', ')', '>']) (hs : mark <:+ c :: cs) : mark <:+ cs :=
  (suffix_cons_iff.mp hs).resolve_left (h.ne_cons hc)

lemma Sealed.suffix_dropWhile (hp : ∀ c ∈ ['\x7d', ')', '>'], p c = false) {cs : List Char}
    (hs : mark <:+ cs) : mark <:+ cs.dropWhile p := by
  induction cs with
  | nil => exact hs
  | cons c cs ih =>
    rw [dropWhile_cons]
    split
    · rename_i hc
      refine ih (h.suffix_of_cons (fun hmem => ?_) hs)
      rw [hp c hmem] at hc
      exact Bool.false_ne_true hc
    · exact hs

lemma Sealed.suffix_splitPlain (hs : mark <:+ cs) : mark <:+ (splitPlain cs).2 := by
  induction cs with
  | nil => exact hs
  | cons c cs ih =>
    rw [splitPlain]
    split
    · exact hs
    · rename_i hmark
      obtain rfl | hs := suffix_cons_iff.mp hs
      · exact absurd h.markerAt hmark
      · exact ih hs

/-- The next token of a region does not reach into the mark behind it. -/
lemma Sealed.suffix_next (hr : region ≠ []) : mark <:+ (next (region ++ mark)).2 := by
  have hdir : ∀ c ∈ ['\x7d', ')', '>'], isDirectiveChar c = false := by simp [isDirectiveChar]
  have htag : ∀ c ∈ ['\x7d', ')', '>'], isTagChar c = false := by simp [isTagChar]
  generalize hcs : region ++ mark = cs
  -- one case for each kind of token; most of them take characters that no mark starts with
  unfold next
  split
  · simp_all
  · exact h.suffix_of_cons (by decide) (suffix_of_append_eq hr hcs)
  · rename_i rest
    -- A brace that ends the region would pair up with the first brace of the mark.
    obtain heq | hs := suffix_cons_iff.mp (suffix_of_append_eq hr hcs)
    · subst heq
      have hone : region = ['\x7d'] := (append_left_inj ('\x7d' :: rest)).mp hcs
      cases h with
      | echo rest hlast => exact absurd (by rw [hone]; rfl) hlast
    · exact hs
  · have hs := suffix_of_append_eq hr hcs
    split
    · exact h.suffix_splitPlain hs
    · exact h.suffix_dropWhile hdir hs
  · have hs := suffix_of_append_eq hr hcs
    exact h.suffix_dropWhile htag
      (h.suffix_of_cons (by decide) (h.suffix_of_cons (by decide) hs))
  · rename_i cs
    have hs := suffix_of_append_eq hr hcs
    split
    · rename_i rest hrest
      have hs' : mark <:+ cs.dropWhile isTagChar :=
        h.suffix_dropWhile htag (h.suffix_of_cons (by decide)
          (h.suffix_of_cons (by decide) (h.suffix_of_cons (by decide) hs)))
      rw [hrest] at hs'
      -- The `>` of a closing tag is not the mark: the region has no closing tag then.
      obtain heq | hs' := suffix_cons_iff.mp hs'
      · subst heq
        obtain ⟨rfl, -⟩ | ⟨region', rfl, -⟩ := append_eq_cons_iff.mp hcs
        · exact absurd rfl hr
        · cases h with
          | tag rest hopen => simp at hopen
      · exact hs'
    · exact h.suffix_splitPlain hs
  · exact suffix_of_append_eq hr hcs
  · exact suffix_of_append_eq hr hcs
  · exact suffix_of_append_eq hr hcs
  · exact h.suffix_splitPlain (suffix_of_append_eq hr hcs)

lemma Sealed.next_split (hr : region ≠ []) : ∃ region',
    (next (region ++ mark)).2 = region' ++ mark ∧
      region = (next (region ++ mark)).1.source.toList ++ region' := by
  obtain ⟨region', hrest⟩ := h.suffix_next hr
  refine ⟨region', hrest.symm, ?_⟩
  have hsource := next_source (append_ne_nil_of_left_ne_nil hr mark)
  rw [← hrest, ← List.append_assoc] at hsource
  exact (append_cancel_right hsource).symm

end

lemma next_ne_eof (h : cs ≠ []) : (next cs).1 ≠ .eof := by
  intro heof
  have hsource := next_source h
  rw [heof] at hsource
  have hlt := next_length h
  simp only [source, toList_empty, nil_append] at hsource
  rw [hsource] at hlt
  exact Nat.lt_irrefl _ hlt

/-- The lexer comes to the mark behind a region, and meets the text of the region on the way. -/
lemma scan_region (h : Sealed region mark) : ∃ ts, scan (region ++ mark) = ts ++ scan mark ∧
    ts.flatMap (·.source.toList) = region ∧ ∀ t ∈ ts, t ≠ .eof ∧ t.IsWhole := by
  induction hn : region.length using Nat.strong_induction_on generalizing region with
  | _ n ih =>
  by_cases hr : region = []
  · exact ⟨[], by simp [hr]⟩
  have hne : region ++ mark ≠ [] := append_ne_nil_of_left_ne_nil hr mark
  obtain ⟨region', hrest, hregion⟩ := h.next_split hr
  have hshorter : region'.length < n := by
    have hlt := next_length hne
    rw [hrest, List.length_append, List.length_append] at hlt
    omega
  have hsealed : Sealed region' mark := by
    rw [hregion] at h
    exact h.of_append
  obtain ⟨ts, hscan, hsource, hts⟩ := ih _ hshorter hsealed rfl
  refine ⟨(next (region ++ mark)).1 :: ts, ?_, ?_, ?_⟩
  · rw [scan_cons hne, hrest, hscan, cons_append]
  · rw [flatMap_cons, hsource, ← hregion]
  · exact forall_mem_cons.mpr ⟨⟨next_ne_eof hne, isWhole_next _⟩, hts⟩

end Token

end LiveMarkup
