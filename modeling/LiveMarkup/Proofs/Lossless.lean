import LiveMarkup.Proofs.Bytes
import Mathlib.Logic.Function.Iterate

/-!
# Nothing is lost in cutting

The lexer works through a source by calls: each call returns one token and moves on. Here the calls
are counted, and the place that the lexer has reached is measured in bytes, as it is when a source
is indexed by its UTF-8 encoding. Markers compete at every position and some of them fall back to
text, but whichever of them wins, a call returns exactly the bytes it has moved over, it moves over
at least one of them, and it never stops inside a character.
-/

namespace LiveMarkup

open List String

variable {k : Nat} {source : String} {ts : List Token}

namespace Token

/-! ## Calling the lexer -/

section

variable (source)

/-- The byte at which the lexer stands when it has been called `k` times. -/
def position (k : Nat) : Nat :=
  (fun pos => (Lexer.next source.toByteArray pos).2)^[k] 0

/-- The token that the lexer returns when it has been called `k` times before. -/
def call (k : Nat) : Token :=
  (Lexer.next source.toByteArray (position source k)).1

/-- What is left of a source when the lexer has been called `k` times. -/
def remaining (k : Nat) : List Char :=
  (fun cs => (next cs).2)^[k] source.toList

lemma remaining_succ (k : Nat) : remaining source (k + 1) = (next (remaining source k)).2 :=
  Function.iterate_succ_apply' _ k source.toList

lemma left_position (k : Nat) : Lexer.left source.toByteArray (position source k) =
    Lexer.encoded (remaining source k) := by
  induction k with
  | zero => exact Lexer.data_toByteArray source
  | succ k ih =>
    rw [remaining_succ, position, Function.iterate_succ_apply']
    exact Lexer.left_next ih

lemma call_eq (k : Nat) : call source k = (next (remaining source k)).1 := by
  rw [call, Lexer.next_encoded (left_position source k)]

lemma position_succ (k : Nat) : position source (k + 1) =
    position source k + (call source k).source.utf8ByteSize := by
  rw [call_eq, position, Function.iterate_succ_apply']
  exact congrArg Prod.snd (Lexer.next_encoded (left_position source k))

lemma call_append_remaining (k : Nat) :
    (call source k).source ++ ofList (remaining source (k + 1)) = ofList (remaining source k) := by
  rw [remaining_succ, call_eq, ← ofList_toList (s := (next _).1.source), ← ofList_append]
  by_cases h : remaining source k = []
  · rw [h]
    rfl
  · rw [next_source h]

/-- What the lexer has moved over and what is left make up the source. -/
lemma exists_append_remaining (k : Nat) : ∃ front, source = front ++ ofList (remaining source k) ∧
    position source k = front.utf8ByteSize := by
  induction k with
  | zero => exact ⟨"", by simp [remaining], rfl⟩
  | succ k ih =>
    obtain ⟨front, hfront, hk⟩ := ih
    refine ⟨front ++ (call source k).source, ?_, ?_⟩
    · rw [String.append_assoc, call_append_remaining, ← hfront]
    · rw [position_succ, hk, utf8ByteSize_append]

lemma isValid_position (k : Nat) : (⟨position source k⟩ : Pos.Raw).IsValid source := by
  obtain ⟨front, hfront, hk⟩ := exists_append_remaining source k
  rw [Pos.Raw.isValid_iff_exists_append]
  exact ⟨front, _, hfront, congrArg _ hk⟩

lemma toByteArray_call (k : Nat) : (call source k).source.toByteArray =
      source.toByteArray.extract (position source k) (position source (k + 1)) := by
  obtain ⟨front, hfront, hk⟩ := exists_append_remaining source k
  rw [position_succ, hk, ← utf8ByteSize_append]
  rw [← call_append_remaining, ← String.append_assoc] at hfront
  generalize (call source k).source = text at hfront
  generalize ofList (remaining source (k + 1)) = rest at hfront
  subst hfront
  simp only [← String.size_toByteArray, String.toByteArray_append]
  rw [ByteArray.extract_append_size_left, ByteArray.extract_append_eq_right rfl]
  exact ByteArray.size_append

end

/-! ## The tokens of a source -/

lemma source_next_ne_empty (h : cs ≠ []) : (next cs).1.source ≠ "" := by
  intro hempty
  have hsource := next_source h
  have hlt := next_length h
  rw [hempty, toList_empty, nil_append] at hsource
  rw [hsource] at hlt
  exact Nat.lt_irrefl _ hlt

lemma scan_eq_concat (cs : List Char) : ∃ ts, scan cs = ts ++ [.eof] ∧
    (∀ t ∈ ts, t ≠ .eof ∧ t.source ≠ "") ∧ ts.flatMap (·.source.toList) = cs := by
  induction hn : cs.length using Nat.strong_induction_on generalizing cs with
  | _ n ih =>
  by_cases h : cs = []
  · exact ⟨[], by simp [h]⟩
  · -- the first token uses up at least one character, so the rest is shorter
    obtain ⟨ts, hscan, hts, hsource⟩ := ih _ (hn ▸ next_length h) (next cs).2 rfl
    refine ⟨(next cs).1 :: ts, ?_, ?_, ?_⟩
    · rw [scan_cons h, hscan, cons_append]
    · exact forall_mem_cons.mpr ⟨⟨next_ne_eof h, source_next_ne_empty h⟩, hts⟩
    · rw [flatMap_cons, hsource, next_source h]

lemma ne_nil_of_drop (h : (ts ++ [eof]).drop k = scan cs) (hk : k < ts.length) : cs ≠ [] := by
  intro hnil
  have hlength := congrArg List.length h
  rw [hnil, scan_nil, List.length_drop, List.length_append] at hlength
  simp only [List.length_singleton] at hlength
  omega

section

variable (h : tokenize source = ts ++ [.eof])
include h

lemma drop_tokenize (hk : k ≤ ts.length) :
    (ts ++ [eof]).drop k = scan (remaining source k) := by
  induction k with
  | zero => exact h.symm.trans (tokenize_eq_scan source)
  | succ k ih =>
    have hdrop := ih (by omega)
    rw [← tail_drop, hdrop, scan_cons (ne_nil_of_drop hdrop hk), tail_cons, remaining_succ]

lemma remaining_ne_nil (hk : k < ts.length) : remaining source k ≠ [] :=
  ne_nil_of_drop (drop_tokenize h (Nat.le_of_lt hk)) hk

lemma remaining_eq_nil (hk : ts.length ≤ k) : remaining source k = [] := by
  induction k, hk using Nat.le_induction with
  | base =>
    have hdrop := drop_tokenize h (Nat.le_refl _)
    by_contra hrest
    rw [drop_left, scan_cons hrest] at hdrop
    exact next_ne_eof hrest (cons.inj hdrop).1.symm
  | succ k hk ih =>
    rw [remaining_succ, ih]
    rfl

lemma getElem?_eq_call (hk : k < ts.length) : ts[k]? = some (call source k) := by
  have hne := remaining_ne_nil h hk
  have hdrop := drop_tokenize h (Nat.le_of_lt hk)
  rw [scan_cons hne, drop_append_of_le_length (Nat.le_of_lt hk), drop_eq_getElem_cons hk,
    cons_append] at hdrop
  rw [getElem?_eq_getElem hk, (cons.inj hdrop).1, call_eq]

end

/-- Every source is cut into tokens with text and one end, and their texts make up the source. The
lexer returns them call by call: it always stands between two characters, each token is made of the
bytes that its call moves over, of which there is at least one, and once the lexer has come to the
end of the source it stays there and returns the end again and again. -/
theorem lexing_loses_nothing (source : String) : ∃ ts,
    tokenize source = ts ++ [.eof] ∧ (∀ t ∈ ts, t ≠ .eof ∧ t.source ≠ "") ∧
    Node.sourceOf (tokenize source) = source ∧
    ∀ k, (⟨position source k⟩ : Pos.Raw).IsValid source ∧
      (k < ts.length → ts[k]? = some (call source k) ∧
        position source k < position source (k + 1) ∧
        (call source k).source.toByteArray =
          source.toByteArray.extract (position source k) (position source (k + 1))) ∧
      (ts.length ≤ k → call source k = .eof ∧ position source k = source.utf8ByteSize) := by
  obtain ⟨ts, hscan, hts, hsource⟩ := scan_eq_concat source.toList
  rw [← tokenize_eq_scan] at hscan
  refine ⟨ts, hscan, hts, ?_, fun k => ⟨isValid_position source k, fun hk => ?_, fun hk => ?_⟩⟩
  · rw [← toList_inj, Node.sourceOf, toList_join, flatMap_map, hscan, flatMap_append, hsource]
    simp [Token.source]
  · refine ⟨getElem?_eq_call hscan hk, ?_, toByteArray_call source k⟩
    have htext : (call source k).source.utf8ByteSize ≠ 0 := by
      rw [Ne, utf8ByteSize_eq_zero_iff, call_eq]
      exact source_next_ne_empty (remaining_ne_nil hscan hk)
    rw [position_succ]
    omega
  · have hnil := remaining_eq_nil hscan hk
    obtain ⟨front, hfront, hend⟩ := exists_append_remaining source k
    rw [hnil, ofList_nil, append_empty] at hfront
    rw [call_eq, hnil, hend, hfront]
    exact ⟨rfl, rfl⟩

end Token

end LiveMarkup
