import LiveMarkup.Proofs.Cutting
import LiveMarkup.Proofs.Lexing

/-!
# Bytes and characters

The lexer reads the bytes of a source, and stands at positions among them. All that it looks for is
ASCII, and a character that is not ASCII is encoded by bytes that are not, so the lexer never finds
anything inside a character and never stops there. `Lexer.next_encoded` says so for one token: at a
position where characters begin, it is the token that these characters begin with, and it ends where
its text does. So the tokens of a source are those that `Token.scan` finds in its characters,
`Token.tokenize_eq_scan`.
-/

namespace LiveMarkup

open List String

variable {b : UInt8} {c d : Char} {cs ds : List Char} {bytes : ByteArray} {pos : Nat}

namespace Lexer

/-! ## Characters as bytes -/

/-- The bytes of some characters. -/
def encoded (cs : List Char) : List UInt8 :=
  cs.flatMap utf8EncodeChar

lemma encoded_append (cs ds : List Char) : encoded (cs ++ ds) = encoded cs ++ encoded ds :=
  flatMap_append

lemma toNat_toUInt8 (h : c.toNat < 128) : c.toUInt8.toNat = c.toNat := by
  show c.toNat % 256 = c.toNat
  omega

lemma ofUInt8_toUInt8 (h : c.toNat < 128) : Char.ofUInt8 c.toUInt8 = c :=
  Char.ext (UInt32.toNat_inj.mp (toNat_toUInt8 h))

/-- The bytes of a character: itself if it is ASCII, and otherwise bytes that are not ASCII. -/
lemma utf8EncodeChar_cases (c : Char) :
    c.toNat < 128 ∧ utf8EncodeChar c = [c.toUInt8] ∨
      128 ≤ c.toNat ∧ ∃ b bs, utf8EncodeChar c = b :: bs ∧ ∀ x ∈ b :: bs, 128 ≤ x := by
  have hle : ∀ {x y : UInt8}, 128 ≤ y → 128 ≤ x ||| y := fun h =>
    UInt8.le_trans h UInt8.right_le_or
  have hone : c.utf8Size = 1 ↔ c.toNat ≤ 127 := Char.utf8Size_eq_one_iff
  have hpos := c.utf8Size_pos
  have hfour := c.utf8Size_le_four
  obtain hs | hs | hs | hs : c.utf8Size = 1 ∨ c.utf8Size = 2 ∨ c.utf8Size = 3 ∨ c.utf8Size = 4 := by
    omega
  · exact .inl ⟨by omega, utf8EncodeChar_eq_singleton hs⟩
  · refine .inr ⟨by omega, _, _, utf8EncodeChar_eq_cons_cons hs, ?_⟩
    simp [hle]
  · refine .inr ⟨by omega, _, _, utf8EncodeChar_eq_cons_cons_cons hs, ?_⟩
    simp [hle]
  · refine .inr ⟨by omega, _, _, utf8EncodeChar_eq_cons_cons_cons_cons hs, ?_⟩
    simp [hle]

/-- An ASCII text stands at the begin of some bytes if it does at the begin of the characters. -/
lemma isPrefixOf_encoded (h : ∀ c ∈ ds, c.toNat < 128) (cs : List Char) :
    (ds.map Char.toUInt8).isPrefixOf (encoded cs) = ds.isPrefixOf cs := by
  induction ds generalizing cs with
  | nil => rfl
  | cons d ds ih =>
    have hd := h d mem_cons_self
    have hds := ih (fun e he => h e (mem_cons_of_mem d he))
    cases cs with
    | nil => rfl
    | cons c cs =>
      rw [encoded, flatMap_cons, map_cons, isPrefixOf_cons_cons]
      obtain ⟨hc, hbytes⟩ | ⟨hc, b, bs, hbytes, hhigh⟩ := utf8EncodeChar_cases c
      · rw [hbytes, singleton_append, isPrefixOf_cons_cons]
        refine congrArg₂ and ?_ (hds cs)
        rw [Bool.eq_iff_iff, beq_iff_eq, beq_iff_eq]
        refine ⟨fun heq => ?_, congrArg _⟩
        rw [← ofUInt8_toUInt8 hd, heq, ofUInt8_toUInt8 hc]
      · have hb : 128 ≤ b.toNat := hhigh b mem_cons_self
        have hbyte : d.toUInt8 ≠ b := by
          rintro rfl
          rw [toNat_toUInt8 hd] at hb
          omega
        have hchar : d ≠ c := by
          rintro rfl
          omega
        rw [hbytes, cons_append, isPrefixOf_cons_cons, beq_false_of_ne hbyte, beq_false_of_ne hchar]
        rfl

/-- The bytes up to the first that is not accepted are those of the characters up to there. -/
lemma takeWhile_encoded {p : Char → Bool} (h : ∀ c, 128 ≤ c.toNat → p c = false) (cs : List Char) :
    (encoded cs).takeWhile (fun b => p (Char.ofUInt8 b)) = encoded (cs.takeWhile p) := by
  induction cs with
  | nil => rfl
  | cons c cs ih =>
    rw [encoded, flatMap_cons, takeWhile_cons]
    obtain ⟨hc, hbytes⟩ | ⟨hc, b, bs, hbytes, hhigh⟩ := utf8EncodeChar_cases c
    · rw [hbytes, singleton_append, takeWhile_cons, ofUInt8_toUInt8 hc]
      split
      · rw [encoded, flatMap_cons, hbytes, singleton_append]
        exact congrArg _ ih
      · rfl
    · have hb : 128 ≤ (Char.ofUInt8 b).toNat := hhigh b mem_cons_self
      rw [hbytes, cons_append, takeWhile_cons, h _ hb, h c hc]
      rfl

lemma isAlphanum_of_le (h : 128 ≤ c.toNat) : c.isAlphanum = false := by
  refine Bool.eq_false_iff.mpr fun halnum => ?_
  rw [Char.isAlphanum, Bool.or_eq_true, Text.isAlpha_iff, Text.isDigit_iff] at halnum
  omega

lemma isDirectiveChar_of_le (h : 128 ≤ c.toNat) : Token.isDirectiveChar c = false := by
  have hne : c ≠ '_' := by rintro rfl; revert h; decide
  simp [Token.isDirectiveChar, isAlphanum_of_le h, hne]

lemma isTagChar_of_le (h : 128 ≤ c.toNat) : Token.isTagChar c = false := by
  have hne : c ≠ '-' ∧ c ≠ '.' := by constructor <;> rintro rfl <;> revert h <;> decide
  simp [Token.isTagChar, isAlphanum_of_le h, hne]

/-! ## What is left of some bytes -/

/-- The bytes from a position on. -/
def left (bytes : ByteArray) (pos : Nat) : List UInt8 :=
  bytes.data.toList.drop pos

lemma left_eq_cons (h : pos < bytes.size) : left bytes pos = bytes[pos] :: left bytes (pos + 1) :=
  drop_eq_getElem_cons (l := bytes.data.toList) h

lemma left_eq_nil (h : bytes.size ≤ pos) : left bytes pos = [] :=
  drop_eq_nil_of_le h

lemma scanWhile_eq (accept : UInt8 → Bool) (pos : Nat) :
    scanWhile bytes accept pos = pos + ((left bytes pos).takeWhile accept).length := by
  fun_induction scanWhile with
  | case1 pos h ha ih => rw [ih, left_eq_cons h, takeWhile_cons_of_pos ha, length_cons]; omega
  | case2 pos h ha => rw [left_eq_cons h, takeWhile_cons_of_neg ha]; rfl
  | case3 pos h => rw [left_eq_nil (by omega)]; rfl

lemma data_toByteArray (s : String) : s.toByteArray.data.toList = encoded s.toList := by
  conv_lhs => rw [← ofList_toList (s := s), toByteArray_ofList]
  exact List.toList_data_toByteArray

lemma startsAt_eq (pattern : String) :
    startsAt bytes pos pattern = (encoded pattern.toList).isPrefixOf (left bytes pos) := by
  have hsize : pattern.utf8ByteSize = (encoded pattern.toList).length := by
    rw [← data_toByteArray]
    rfl
  rw [Bool.eq_iff_iff, startsAt, beq_iff_eq, isPrefixOf_iff_prefix, prefix_iff_eq_take,
    ← Array.toList_inj, data_toByteArray, ByteArray.data_extract, Array.toList_extract, List.extract,
    hsize, Nat.add_sub_cancel_left]
  exact eq_comm

lemma encoded_of_ascii (h : ∀ c ∈ cs, c.toNat < 128) : encoded cs = cs.map Char.toUInt8 := by
  induction cs with
  | nil => rfl
  | cons c cs ih =>
    obtain ⟨-, hbytes⟩ | ⟨hc, -⟩ := utf8EncodeChar_cases c
    · rw [encoded, flatMap_cons, hbytes, map_cons, singleton_append]
      exact congrArg _ (ih fun d hd => h d (mem_cons_of_mem c hd))
    · exact absurd (h c mem_cons_self) (by omega)

lemma startsAt_encoded (h : left bytes pos = encoded cs) {pattern : String}
    (hp : ∀ c ∈ pattern.toList, c.toNat < 128) :
    startsAt bytes pos pattern = pattern.toList.isPrefixOf cs := by
  rw [startsAt_eq, h, encoded_of_ascii hp, isPrefixOf_encoded hp]

/-! ## Text -/

lemma ascii_of_mem_markers {pattern : String} (h : pattern ∈ markers) :
    pattern.toList ≠ [] ∧ ∀ c ∈ pattern.toList, c.toNat < 128 := by
  revert pattern
  simp [markers]

lemma markerAt_encoded (h : left bytes pos = encoded cs) :
    markerAt bytes pos = Token.markerAt cs := by
  have hany : markerAt bytes pos = markers.any (·.toList.isPrefixOf cs) := by
    rw [markerAt, Bool.eq_iff_iff, any_eq_true, any_eq_true]
    refine exists_congr fun pattern => and_congr_right fun hp => ?_
    rw [startsAt_encoded h (ascii_of_mem_markers hp).2]
  rw [hany]
  unfold Token.markerAt
  split
  case h_9 =>
    simp only [markers, any_eq_false, isPrefixOf_iff_prefix]
    rintro pattern hp ⟨rest, rfl⟩
    simp only [mem_cons, not_mem_nil, or_false] at hp
    rcases hp with rfl | rfl | rfl | rfl | rfl | rfl | rfl | rfl <;> simp_all
  all_goals simp [markers, List.isPrefixOf]

lemma markerAt_high (h : left bytes pos = b :: bs) (hb : 128 ≤ b) : markerAt bytes pos = false := by
  rw [markerAt, any_eq_false]
  intro pattern hp hstarts
  obtain ⟨hne, hascii⟩ := ascii_of_mem_markers hp
  rw [startsAt_eq, h, encoded_of_ascii hascii] at hstarts
  cases hp' : pattern.toList with
  | nil => exact hne hp'
  | cons d ds =>
    rw [hp', map_cons, isPrefixOf_cons_cons, Bool.and_eq_true, beq_iff_eq] at hstarts
    have hd := hascii d (by rw [hp']; exact mem_cons_self)
    have hb : 128 ≤ d.toUInt8.toNat := hstarts.1 ▸ hb
    rw [toNat_toUInt8 hd] at hb
    omega

lemma textEnd_eq_succ (h : pos < bytes.size) (hm : markerAt bytes pos = false) :
    textEnd bytes pos = textEnd bytes (pos + 1) := by
  conv_lhs => rw [textEnd, if_pos ⟨h, hm⟩]

lemma lt_size_of_left (h : left bytes pos = b :: bs) : pos < bytes.size := by
  by_contra hle
  rw [left_eq_nil (by omega)] at h
  cases h

lemma size_le_of_left (h : left bytes pos = []) : bytes.size ≤ pos := by
  by_contra hlt
  rw [left_eq_cons (by omega)] at h
  cases h

lemma lt_size_of_encoded (h : left bytes pos = encoded (c :: cs)) : pos < bytes.size := by
  obtain ⟨b, bs, hbytes⟩ := exists_cons_of_ne_nil (utf8EncodeChar_ne_nil (c := c))
  rw [encoded, flatMap_cons, hbytes] at h
  exact lt_size_of_left h

lemma left_tail (h : left bytes pos = b :: bs) : left bytes (pos + 1) = bs := by
  rw [left_eq_cons (lt_size_of_left h)] at h
  exact (cons.inj h).2

lemma left_append (h : left bytes pos = bs ++ bs') : left bytes (pos + bs.length) = bs' := by
  rw [left] at h
  rw [left, ← drop_drop, h, drop_left]

/-- Bytes that are not ASCII are passed. -/
lemma textEnd_high (hhigh : ∀ x ∈ bs, 128 ≤ x) (h : left bytes pos = bs ++ bs') :
    textEnd bytes pos = textEnd bytes (pos + bs.length) := by
  induction bs generalizing pos with
  | nil => rfl
  | cons b bs ih =>
    have hm := markerAt_high h (hhigh b mem_cons_self)
    rw [textEnd_eq_succ (lt_size_of_left h) hm,
      ih (fun x hx => hhigh x (mem_cons_of_mem b hx)) (left_tail h), length_cons]
    congr 1
    omega

/-- From the second byte of a character on, text is passed up to the next character. -/
lemma textEnd_tail (h : left bytes pos = encoded (c :: cs)) :
    textEnd bytes (pos + 1) = textEnd bytes (pos + (utf8EncodeChar c).length) := by
  obtain ⟨-, hbytes⟩ | ⟨-, b, bs, hbytes, hhigh⟩ := utf8EncodeChar_cases c
  · rw [hbytes]
    rfl
  · rw [encoded, flatMap_cons, hbytes] at h
    rw [textEnd_high (fun x hx => hhigh x (mem_cons_of_mem b hx)) (left_tail h), hbytes, length_cons]
    congr 1
    omega

lemma textEnd_encoded (h : left bytes pos = encoded cs) :
    textEnd bytes pos = pos + (encoded (Token.splitPlain cs).1).length := by
  induction cs generalizing pos with
  | nil =>
    have hend := size_le_of_left h
    rw [textEnd, if_neg (by omega)]
    rfl
  | cons c cs ih =>
    have hm := markerAt_encoded h
    have hlt := lt_size_of_encoded h
    rw [Token.splitPlain]
    split
    · rename_i hmark
      rw [textEnd, if_neg (by simp [hm, hmark])]
      rfl
    · rename_i hmark
      have hrest : left bytes (pos + (utf8EncodeChar c).length) = encoded cs := left_append h
      rw [textEnd_eq_succ hlt (by simpa [hm] using hmark), textEnd_tail h, ih hrest]
      simp [encoded, Nat.add_assoc]

/-- Where a character begins, there is a boundary. -/
lemma boundary_encoded (h : left bytes pos = encoded cs) : boundary bytes pos = pos := by
  cases cs with
  | nil =>
    rw [boundary, dif_neg (Nat.not_lt_of_le (size_le_of_left h))]
  | cons c cs =>
    obtain ⟨b, bs, hbytes⟩ := exists_cons_of_ne_nil (utf8EncodeChar_ne_nil (c := c))
    rw [encoded, flatMap_cons, hbytes] at h
    have hlt := lt_size_of_left h
    have hfirst : b.IsUTF8FirstByte := by
      have h0 := UInt8.isUTF8FirstByte_getElem_zero_utf8EncodeChar (c := c)
      simpa only [hbytes, getElem_cons_zero] using h0
    rw [left_eq_cons hlt] at h
    rw [boundary, dif_pos hlt, if_pos ((cons.inj h).1 ▸ hfirst)]

lemma slice_encoded (h : left bytes pos = encoded (cs ++ ds)) :
    slice bytes pos (pos + (encoded cs).length) = ofList cs := by
  have hbytes : bytes.extract pos (pos + (encoded cs).length) = (ofList cs).toByteArray := by
    rw [encoded_append] at h
    apply ByteArray.ext
    rw [← Array.toList_inj, data_toByteArray, ByteArray.data_extract, Array.toList_extract,
      List.extract, Nat.add_sub_cancel_left, toList_ofList]
    exact (congrArg (List.take _) h).trans take_left
  rw [slice, hbytes, fromUTF8?, dif_pos (ofList cs).isValidUTF8]
  rfl

/-! ## Tokens -/

lemma length_encoded (cs : List Char) : (encoded cs).length = (ofList cs).utf8ByteSize := by
  rw [← toList_ofList (l := cs), ← data_toByteArray, ofList_toList]
  rfl

lemma text_encoded (h : left bytes pos = encoded (c :: cs)) :
    text bytes pos = ((Token.plain c cs).1, pos + (Token.plain c cs).1.source.utf8ByteSize) := by
  have hsplit : c :: cs = c :: (Token.splitPlain cs).1 ++ (Token.splitPlain cs).2 := by
    rw [cons_append, Token.splitPlain_eq]
  have hend : textEnd bytes (pos + 1) = pos + (encoded (c :: (Token.splitPlain cs).1)).length := by
    rw [textEnd_tail h, textEnd_encoded (left_append h), Nat.add_assoc, ← List.length_append]
    rfl
  rw [hsplit] at h
  have hrest := left_append ((encoded_append _ _) ▸ h)
  simp only [text, hend, boundary_encoded hrest, slice_encoded h]
  rw [length_encoded]
  rfl

lemma scanWhile_encoded {p : Char → Bool} (hp : ∀ c, 128 ≤ c.toNat → p c = false)
    (h : left bytes pos = encoded cs) :
    scanWhile bytes (fun b => p (Char.ofUInt8 b)) pos = pos + (encoded (cs.takeWhile p)).length := by
  rw [scanWhile_eq, h, takeWhile_encoded hp]

lemma directive?_encoded (h : left bytes pos = encoded ('@' :: cs)) :
    directive? bytes pos =
      if (cs.takeWhile Token.isDirectiveChar).isEmpty then none
      else
        let t := Token.directive (ofList (cs.takeWhile Token.isDirectiveChar))
        some (t, pos + t.source.utf8ByteSize) := by
  have hstarts : startsAt bytes pos "@" = true := by rw [startsAt_encoded h (by simp)]; rfl
  have hrest : left bytes (pos + 1) = encoded cs := left_tail h
  have hstop : scanWhile bytes isDirectiveByte (pos + 1) = _ :=
    scanWhile_encoded (fun _ => isDirectiveChar_of_le) hrest
  rw [← List.takeWhile_append_dropWhile (p := Token.isDirectiveChar) (l := cs)] at hrest
  have hslice := slice_encoded hrest
  simp only [directive?, hstarts, if_true, hstop]
  rw [hslice]
  cases cs.takeWhile Token.isDirectiveChar with
  | nil => simp [encoded]
  | cons d ds =>
    have hpos : 0 < (encoded (d :: ds)).length := by
      rw [length_pos_iff, encoded, flatMap_cons]
      simp [utf8EncodeChar_ne_nil]
    rw [if_pos (by omega), length_encoded, Token.source, utf8ByteSize_append, Nat.add_assoc]
    rfl

/-- A tag name ends where its characters do. -/
lemma tag_encoded (h : left bytes pos = encoded ('x' :: '-' :: cs)) :
    scanWhile bytes isTagByte (pos + 2) =
        pos + (encoded ('x' :: '-' :: cs.takeWhile Token.isTagChar)).length ∧
      left bytes pos =
        encoded ('x' :: '-' :: cs.takeWhile Token.isTagChar ++ cs.dropWhile Token.isTagChar) := by
  have hrest : left bytes (pos + 2) = encoded cs := left_tail (left_tail h)
  have hstop : scanWhile bytes isTagByte (pos + 2) = _ :=
    scanWhile_encoded (fun _ => isTagChar_of_le) hrest
  constructor
  · rw [hstop, Nat.add_assoc, Nat.add_comm 2]
    rfl
  · rw [h, cons_append, cons_append, List.takeWhile_append_dropWhile]

lemma tagOpen?_encoded (h : left bytes pos = encoded ('<' :: 'x' :: '-' :: cs)) :
    let t := Token.tagOpen (ofList ('x' :: '-' :: cs.takeWhile Token.isTagChar))
    tagOpen? bytes pos = some (t, pos + t.source.utf8ByteSize) := by
  have hstarts : startsAt bytes pos "<x-" = true := by rw [startsAt_encoded h (by simp)]; rfl
  obtain ⟨hstop, hname⟩ := tag_encoded (left_tail h)
  simp only [tagOpen?, hstarts, if_true, Token.source, utf8ByteSize_append]
  rw [hstop, slice_encoded hname, length_encoded, Nat.add_assoc]
  rfl

lemma tagEnd?_encoded (h : left bytes pos = encoded ('<' :: '/' :: 'x' :: '-' :: cs)) :
    tagEnd? bytes pos =
      if ['>'].isPrefixOf (cs.dropWhile Token.isTagChar) then
        let t := Token.tagEnd (ofList ('x' :: '-' :: cs.takeWhile Token.isTagChar))
        some (t, pos + t.source.utf8ByteSize)
      else none := by
  have hstarts : startsAt bytes pos "</x-" = true := by rw [startsAt_encoded h (by simp)]; rfl
  obtain ⟨hstop, hname⟩ := tag_encoded (left_tail (left_tail h))
  have hclose : startsAt bytes _ ">" = _ :=
    startsAt_encoded (left_append ((encoded_append _ _) ▸ hname)) (by simp)
  simp only [tagEnd?, hstarts, if_true, Token.source, utf8ByteSize_append]
  rw [hstop, slice_encoded hname, hclose, length_encoded, Nat.add_assoc, Nat.add_assoc pos]
  refine if_congr Iff.rfl (congrArg some (congrArg _ ?_)) rfl
  show _ = pos + (2 + _ + 1)
  omega

/-- The token at a position is that of the characters from there on, and ends where its text does. -/
lemma next_encoded (h : left bytes pos = encoded cs) :
    next bytes pos = ((Token.next cs).1, pos + (Token.next cs).1.source.utf8ByteSize) := by
  have hmarkers : ∀ p ∈ markers, startsAt bytes pos p = p.toList.isPrefixOf cs :=
    fun _ hp => startsAt_encoded h (ascii_of_mem_markers hp).2
  have hmark := markerAt_encoded h
  simp only [markers, forall_mem_cons] at hmarkers
  unfold Token.next
  split
  · rw [next, if_pos (size_le_of_left h)]
    rfl
  all_goals rw [next, if_neg (Nat.not_le_of_lt (lt_size_of_encoded h))]
  · simp [marker?, fixed?, hmarkers, List.isPrefixOf]
    rfl
  · simp [marker?, fixed?, hmarkers, List.isPrefixOf]
    rfl
  · simp [marker?, fixed?, hmarkers, directive?_encoded h, tagOpen?, tagEnd?, text_encoded h,
      List.isPrefixOf]
    split <;> rfl
  · simp [marker?, fixed?, hmarkers, directive?, tagOpen?_encoded h, List.isPrefixOf]
  · rename_i cs
    split
    · rename_i rest hrest
      simp [marker?, fixed?, hmarkers, directive?, tagOpen?, tagEnd?_encoded h, hrest,
        List.isPrefixOf]
    · rename_i hno
      have hclose : ¬ ['>'].isPrefixOf (cs.dropWhile Token.isTagChar) := by
        intro hstart
        obtain ⟨rest, hrest⟩ := isPrefixOf_iff_prefix.mp hstart
        exact hno rest hrest.symm
      rw [marker?, tagEnd?_encoded h, if_neg hclose]
      simp [fixed?, hmarkers, directive?, tagOpen?, text_encoded h, List.isPrefixOf]
  · simp [marker?, fixed?, hmarkers, directive?, tagOpen?, tagEnd?, List.isPrefixOf]
    rfl
  · simp [marker?, fixed?, hmarkers, directive?, tagOpen?, tagEnd?, List.isPrefixOf]
    rfl
  · simp [marker?, fixed?, hmarkers, directive?, tagOpen?, tagEnd?, List.isPrefixOf]
    rfl
  · rename_i c cs _ _ _ _ _ _ _ _
    have hno : Token.markerAt (c :: cs) = false := by
      unfold Token.markerAt
      split <;> simp_all
    rw [hno, markerAt, any_eq_false] at hmark
    simp only [markers, forall_mem_cons] at hmark
    simp [marker?, fixed?, hmark, directive?, tagOpen?, tagEnd?, text_encoded h]

lemma left_next (h : left bytes pos = encoded cs) :
    left bytes (next bytes pos).2 = encoded (Token.next cs).2 := by
  have hsource : (Token.next cs).1.source.toList ++ (Token.next cs).2 = cs := by
    cases cs with
    | nil => rfl
    | cons c cs => exact Token.next_source (cons_ne_nil c cs)
  rw [← hsource, encoded_append] at h
  rw [next_encoded (h.trans (by rw [← encoded_append, hsource]))]
  have hrest := left_append h
  rwa [length_encoded, ofList_toList] at hrest

lemma tokens_encoded (h : left bytes pos = encoded cs) : tokens bytes pos = Token.scan cs := by
  induction hn : cs.length using Nat.strong_induction_on generalizing cs pos with
  | _ n ih =>
  have htoken : (next bytes pos).1 = (Token.next cs).1 := by rw [next_encoded h]
  rw [tokens]
  by_cases hcs : cs = []
  · subst hcs
    rw [dif_pos (show _ = Token.eof from htoken), Token.scan_nil]
  · rw [dif_neg (htoken ▸ Token.next_ne_eof hcs), Token.scan_cons hcs]
    exact congrArg₂ cons htoken (ih _ (hn ▸ Token.next_length hcs) (left_next h) rfl)

end Lexer

/-- Reading bytes comes to the tokens that reading characters does. -/
lemma Token.tokenize_eq_scan (source : String) : tokenize source = scan source.toList :=
  Lexer.tokens_encoded (Lexer.data_toByteArray source)

end LiveMarkup
