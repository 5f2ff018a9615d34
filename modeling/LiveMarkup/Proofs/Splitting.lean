import Mathlib.Data.List.Infix
import LiveMarkup.Proofs.ListTexts

/-!
# Splitting a text and joining the pieces

Separators are taken from left to right, none of them inside another, and the pieces between them
are kept, empty ones too. So the pieces joined by the separator are the text again, and no piece has
the separator in it: the first place where it starts would have ended the piece.
-/

namespace LiveMarkup

open List

namespace Text

variable {sep piece cs p : List Char} {skip : Nat}

lemma splitFrom_ne_nil (sep : List Char) (skip : Nat) (piece cs : List Char) :
    splitFrom sep skip piece cs ≠ [] := by
  fun_induction splitFrom sep skip piece cs with
  | case1 => simp
  | case2 _ _ _ _ ih | case4 _ _ _ _ ih => exact ih
  | case3 => simp

/-- A separator that is found is what the next characters to be skipped belong to. -/
lemma append_drop_of_prefix (hsep : sep ≠ []) (h : sep <+: c :: cs) :
    sep ++ cs.drop (sep.length - 1) = c :: cs := by
  obtain ⟨d, rest, rfl⟩ := exists_cons_of_ne_nil hsep
  obtain ⟨rfl, hrest⟩ := cons_prefix_cons.mp h
  simpa using prefix_iff_eq_append.mp hrest

lemma intercalate_splitFrom (hsep : sep ≠ []) :
    sep.intercalate (splitFrom sep skip piece cs) = piece.reverse ++ cs.drop skip := by
  fun_induction splitFrom sep skip piece cs with
  | case1 => simp
  | case2 _ _ _ _ ih | case4 piece c cs _ ih => simpa using ih
  | case3 piece c cs hfound ih =>
    have hstart := isPrefixOf_iff_prefix.mp hfound
    rw [intercalate_cons_of_ne_nil (splitFrom_ne_nil _ _ _ _), ih, reverse_nil, nil_append,
      append_assoc, append_drop_of_prefix hsep hstart, drop_zero]

lemma intercalate_singletons (cs : List Char) :
    ([] : List Char).intercalate (cs.map fun c => [c]) = cs := by
  induction cs with
  | nil => rfl
  | cons c cs ih =>
    cases cs with
    | nil => rfl
    | cons d cs =>
      rw [map_cons, intercalate_cons_of_ne_nil (by simp), ih]
      rfl

lemma intercalate_splitOn (sep cs : List Char) : sep.intercalate (splitOn sep cs) = cs := by
  rw [splitOn]
  split
  next hempty =>
    rw [isEmpty_iff.mp hempty]
    exact intercalate_singletons cs
  next hsep =>
    rw [intercalate_splitFrom (by simpa using hsep)]
    rfl

/-- No separator starts in the current piece, not even one that ends behind it. -/
def NoneStarts (sep piece cs : List Char) : Prop :=
  ∀ tail, tail <:+ piece.reverse → tail ≠ [] → ¬ sep <+: tail ++ cs

lemma NoneStarts.not_infix (h : NoneStarts sep piece cs) (hsep : sep ≠ []) :
    ¬ sep <:+: piece.reverse := by
  rintro ⟨before, after, heq⟩
  refine h (sep ++ after) ⟨before, by rw [← heq, append_assoc]⟩ (by simp [hsep]) ?_
  rw [append_assoc]
  exact prefix_append ..

lemma NoneStarts.cons {c : Char} (h : NoneStarts sep piece (c :: cs)) (hc : ¬ sep <+: c :: cs) :
    NoneStarts sep (c :: piece) cs := by
  intro tail htail hne
  rw [reverse_cons, suffix_concat_iff] at htail
  obtain rfl | ⟨tail, rfl, htail⟩ := htail
  · exact absurd rfl hne
  rw [append_assoc, singleton_append]
  by_cases hnil : tail = []
  · rwa [hnil]
  · exact h tail htail hnil

lemma not_infix_of_mem_splitFrom (hsep : sep ≠ []) (h : NoneStarts sep piece (cs.drop skip))
    (hp : p ∈ splitFrom sep skip piece cs) : ¬ sep <:+: p := by
  fun_induction splitFrom sep skip piece cs with
  | case1 =>
    rw [mem_singleton.mp hp]
    exact h.not_infix hsep
  | case2 _ _ _ _ ih => exact ih h hp
  | case3 piece c cs _ ih =>
    obtain rfl | hp := mem_cons.mp hp
    · exact h.not_infix hsep
    · exact ih (fun tail htail hne => absurd (suffix_nil.mp htail) hne) hp
  | case4 piece c cs hnot ih =>
    have hstart : ¬ sep <+: c :: cs := mt isPrefixOf_iff_prefix.mpr hnot
    exact ih (h.cons hstart) hp

lemma not_infix_of_mem_splitOn (hsep : sep ≠ []) (hp : p ∈ splitOn sep cs) : ¬ sep <:+: p := by
  rw [splitOn, if_neg (by simpa using hsep)] at hp
  exact not_infix_of_mem_splitFrom hsep (fun tail htail hne => absurd (suffix_nil.mp htail) hne) hp

/-- The pieces as texts. -/
def pieces (sep s : String) : List String :=
  (splitOn sep.toList s.toList).map String.ofList

lemma intercalate_pieces (sep s : String) : sep.intercalate (pieces sep s) = s := by
  rw [← String.toList_inj, String.toList_intercalate, pieces, map_map]
  simp [Function.comp_def, intercalate_splitOn]

lemma not_infix_of_mem_pieces {sep s piece : String} (hsep : sep ≠ "")
    (hpiece : piece ∈ pieces sep s) : ¬ sep.toList <:+: piece.toList := by
  obtain ⟨p, hp, rfl⟩ := mem_map.mp hpiece
  rw [String.toList_ofList]
  exact not_infix_of_mem_splitOn (by simpa using hsep) hp

end Text

/-! ## The expressions -/

namespace Expr

open Program

variable {S : Signature} {env : Environment S} {e f : Expr} {s sep : String} {v : Value}

/-- An expression has a value in every heap, and only looks for it: a literal, say, or the name of a
variable that holds a text. -/
def Names (env : Environment S) (e : Expr) (v : Value) : Prop :=
  ∀ h, (e.eval env).run.Finds h (.ok v)

lemma Names.evalAll (hf : f.Names env v) (h : Heap) : (evalAll env [f]).run.Finds h (.ok [v]) :=
  Finds.run_bind (hf h) (Finds.run_bind (.pure _) (.pure _))

lemma run_bind_of_ok {call : Caller S} (hx : x.run.run call w = some (.ok a, w'))
    (g : α → Eval S β) : (x >>= g).run.run call w = (g a).run.run call w' := by
  rw [ExceptT.run_bind, run_bind, hx]
  rfl

lemma finds_display_text (h : Heap) (s : String) :
    (Eval.display (S := S) (.text s)).run.Finds h (.ok s) :=
  Finds.run_lift (finds_read (Query.answer_display fun _ => rfl))

/-- Splitting makes a new list of the pieces. -/
lemma run_callMethod_split (env : Environment S) (call : Caller S) (w : World S) (s sep : String)
    (callee : Expr) :
    ∃ l w', (Eval.callMethod env (.text s) "split" [.text sep] callee).run.run call w =
        some (.ok (.list l), w') ∧ w'.heap.items l = (Text.pieces sep s).map .text := by
  obtain ⟨slots, hsep⟩ := (finds_display_text (S := S) w.heap sep).run call
  refine ⟨_, _, run_bind_of_ok hsep _, ?_⟩
  show (Heap.newList _ _).2.items _ = _
  rw [Heap.items_newList, if_pos rfl, Text.pieces, map_map]
  rfl

lemma finds_callMethod_join (hl : h.items l = texts.map .text) (sep : String) (callee : Expr) :
    (Eval.callMethod env (.list l) "join" [.text sep] callee).run.Finds h
      (.ok (.text (sep.intercalate texts))) := by
  have hitems := Eval.finds_ask (S := S) (q := .items l) (Reading.gives_readItems h l)
  have hparts : ((h.items l).mapM (Eval.itemText (S := S))).run.Finds h (.ok texts) := by
    have htexts : (texts.mapM fun t => Eval.itemText (S := S) (.text t)).run.Finds h
        (.ok (texts.map id)) := Finds.run_mapM fun t _ => finds_display_text h t
    rw [map_id] at htexts
    rw [hl, mapM_map]
    exact htexts
  exact Finds.run_bind (finds_display_text h sep) (Finds.run_bind hitems
    (Finds.run_bind hparts (.pure _)))

/-- A text that is split and joined again by the same separator is what it was, and none of the
pieces has the separator in it. -/
theorem join_split (he : e.Names env (.text s)) (hf : f.Names env (.text sep)) (call : Caller S)
    (w : World S) : ∃ (l : ListId) (pieces : List String) (w' w'' : World S),
      ((Expr.call (.member e "split") [f]).eval env).run.run call w = some (.ok (.list l), w') ∧
      w'.heap.items l = pieces.map .text ∧
      (sep ≠ "" → ∀ piece ∈ pieces, ¬ sep.toList <:+: piece.toList) ∧
      ((Expr.call (.member (.call (.member e "split") [f]) "join") [f]).eval env).run.run call w =
        some (.ok (.text s), w'') := by
  obtain ⟨slots, hreceiver⟩ := (he w.heap).run call
  obtain ⟨slots', hargs⟩ := (hf.evalAll (w.trackAll slots).heap).run call
  obtain ⟨l, w', hsplit, hl⟩ := run_callMethod_split env call
    ((w.trackAll slots).trackAll slots') s sep (.member e "split")
  have hlist : ((Expr.call (.member e "split") [f]).eval env).run.run call w =
      some (.ok (.list l), w') := by
    rw [eval, run_bind_of_ok hreceiver, run_bind_of_ok hargs, hsplit]
  let callee := Expr.member (.call (.member e "split") [f]) "join"
  obtain ⟨slots, hjoin⟩ := (Finds.run_bind
    (f := fun values => Eval.callMethod env (.list l) "join" values callee)
    (hf.evalAll w'.heap) (finds_callMethod_join hl sep callee)).run call
  rw [Text.intercalate_pieces] at hjoin
  refine ⟨l, _, w', w'.trackAll slots, hlist, hl, fun hsep piece => ?_, ?_⟩
  · exact Text.not_infix_of_mem_pieces hsep
  · rw [eval, run_bind_of_ok hlist]
    exact hjoin

/-- Of two places that overlap, the separator is found at the first. -/
theorem join_split_overlapping :
    let split := Expr.call (.member (.text "aaa") "split") [.text "aa"]
    let answer (e : Expr) := (e.eval Ouroboros.env).run.run (fun _ _ => none) { heap := {}, state := () }
    (∃ w', answer split = some (.ok (.list ⟨0⟩), w') ∧ w'.heap.items ⟨0⟩ = [.text "", .text "a"]) ∧
      ∃ w'', answer (.call (.member split "join") [.text "aa"]) = some (.ok (.text "aaa"), w'') := by
  intro split answer
  have he : (Expr.text "aaa").Names Ouroboros.env (.text "aaa") := fun _ => .pure _
  have hf : (Expr.text "aa").Names Ouroboros.env (.text "aa") := fun _ => .pure _
  obtain ⟨-, -, -, w'', -, -, -, hjoin⟩ := join_split he hf (fun _ _ => none) { heap := {}, state := () }
  exact ⟨⟨_, rfl, rfl⟩, w'', hjoin⟩

end Expr

end LiveMarkup
