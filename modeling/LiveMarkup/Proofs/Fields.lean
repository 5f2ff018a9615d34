import LiveMarkup.Proofs.Bytes
import LiveMarkup.Proofs.Checkboxes
import LiveMarkup.Proofs.Confinement
import LiveMarkup.Proofs.Paths

/-!
# Fields that are bound to a path

`<input @model(p)>` shows what is stored under the path and is marked as bound to it. What is stored
was typed by somebody, and it stands in the very tag that is searched for markers afterwards.
Escaping takes the quotes out of it, so the tag keeps its shape, but the search does not know about
attributes: a value that ends as a marker begins, `data-z-click=` say, makes a marker of its closing
quote, and the real one becomes its target. Apart from such values, and from paths that start with
a literal, the field keeps its binding and its value whatever is stored.
-/

namespace LiveMarkup

open Text List Render ExprToken Node Compile Text
open Arguments (State pieces split unquote)
open Clause (dotted_pathNames isPath isPathChar ne_of_isPathChar)
open List (append_assoc cons_append mem_cons nil_append)
open String (ofList ofList_toList toList_append toList_inj toList_ofList)

variable {p : String}

/-! ## Compiling the field -/

lemma Text.trimChars_of_not_blank (h : ∀ c ∈ cs, isBlank c = false) : trimChars cs = cs := by
  have hdrop (ds : List Char) (hds : ∀ c ∈ ds, isBlank c = false) : ds.dropWhile isBlank = ds :=
    dropWhile_eq_self_iff.mpr fun _ => by simp [hds]
  rw [trimChars, trimStart, hdrop cs h, trimEnd, hdrop _ (by simpa using h),
    reverse_reverse]

namespace Compile

lemma pieces_of_isPathChar (h : ∀ c ∈ cs, isPathChar c = true) : pieces (.outside 0) cs = [cs] := by
  induction cs with
  | nil => rfl
  | cons c cs ih =>
    obtain ⟨hc, hcs⟩ := forall_mem_cons.mp h
    have hne : ∀ d, isPathChar d = false → (c == d) = false := fun d hd =>
      beq_eq_false_iff_ne.mpr (ne_of_isPathChar hc hd)
    have hafter : (State.outside 0).after c = .outside 0 := by
      simp [State.after, hne '\'' (by decide), hne '"' (by decide), hne '`' (by decide),
        hne '(' (by decide), hne '[' (by decide), hne '\x7b' (by decide), hne ')' (by decide),
        hne ']' (by decide), hne '\x7d' (by decide)]
    have hseparates : (State.outside 0).separates c = false := hne ',' (by decide)
    rw [pieces, hseparates, hafter, ih hcs]
    rfl

lemma parse_of_expression (h : expression context source = .ok e) : Expr.parse source = .ok e := by
  rw [expression] at h
  split at h
  · rename_i hparse
    cases h
    exact hparse
  · cases h

lemma model_of_isPath (hp : isPath p.toList = true) :
    model (some p) = (do
      let value ← expression "@model" p
      return .model p value) := by
  have hdotted := dotted_pathNames hp
  have hchars := hdotted.isPathChar
  have htrim := trimChars_of_not_blank fun c hc => Clause.isBlank_of_isPathChar (hchars c hc)
  obtain ⟨c, rest, hcs, hc⟩ := hdotted.head
  have hfull : p.toList.isEmpty = false := by
    rw [hcs]
    rfl
  have hsplit : split p = [p] := by
    rw [split, htrim, hfull, pieces_of_isPathChar hchars, map_singleton, htrim, ofList_toList]
    rfl
  have hne : p.isEmpty = false := by
    refine Bool.eq_false_iff.mpr fun hempty => ?_
    rw [String.isEmpty_iff.mp hempty] at hcs
    cases hcs
  have hunquote : unquote p = p := by
    have hsingle := ne_of_isPathChar (hchars c (by simp [hcs])) (d := '\'') (by decide)
    have hdouble := ne_of_isPathChar (hchars c (by simp [hcs])) (d := '"') (by decide)
    rw [unquote, htrim, hcs, Arguments.unquoteChars, if_neg (by simp [hsingle, hdouble]),
      ← hcs, ofList_toList]
  have harguments : arguments "model" (some p) = .ok (p, []) := by
    simp [arguments, hsplit, hne, pure, Except.pure]
  rw [model, harguments]
  simp [hunquote, hp, bind, Except.bind]

end Compile

namespace Field

def source (p : String) : String :=
  "<input @model(" ++ p ++ ")>"

def routine (p : String) (e : Expr) : Routine :=
  ⟨[.text "<input ", .model p e, .text ">"]⟩

lemma next_input (rest : List Char) :
    Token.next ('<' :: 'i' :: (['n', 'p', 'u', 't', ' '] ++ '@' :: rest)) =
      (.text "<input ", '@' :: rest) := by
  have hplain : ∀ c ∈ ['i', 'n', 'p', 'u', 't', ' '], Token.isPlain c = true := by
    simp [Token.isPlain_iff]
  have hnext : Token.next ('<' :: 'i' :: (['n', 'p', 'u', 't', ' '] ++ '@' :: rest)) =
      Token.plain '<' (['i', 'n', 'p', 'u', 't', ' '] ++ '@' :: rest) := rfl
  rw [hnext, Token.plain, Token.splitPlain_append hplain (.inr rfl)]

section

variable (hp : isPath p.toList = true)
include hp

lemma tokenize_source :
    Token.tokenize (source p) = [.text "<input ", .directive "model", .parenStart, .text p,
      .parenEnd, .tagClose, .eof] := by
  have hdotted := dotted_pathNames hp
  have hplain : ∀ c ∈ p.toList, Token.isPlain c = true := by
    intro c hc
    have hne : ∀ d, isPathChar d = false → c ≠ d := fun d hd =>
      ne_of_isPathChar (hdotted.isPathChar c hc) hd
    exact Token.isPlain_iff.mpr ⟨hne _ (by decide), hne _ (by decide), hne _ (by decide),
      hne _ (by decide), hne _ (by decide), hne _ (by decide), hne _ (by decide)⟩
  have hne : p ≠ "" := by
    rintro rfl
    cases hp
  have hsource : (source p).toList = '<' :: 'i' :: (['n', 'p', 'u', 't', ' '] ++
      '@' :: ("model".toList ++ '(' :: (p.toList ++ [')', '>']))) := by
    show ("<input @model(" ++ p ++ ")>").toList = _
    rw [toList_append, toList_append, append_assoc]
    rfl
  have hmodel : ∀ c ∈ "model".toList, Token.isDirectiveChar c = true :=
    all_eq_true.mp (by decide)
  rw [Token.tokenize_eq_scan, hsource, Token.scan_of_next (cons_ne_nil _ _) (next_input _),
    Token.scan_directive (by decide) hmodel (by rintro c ⟨⟩; decide),
    Token.scan_parenStart, Token.scan_text hne hplain (.inr rfl), Token.scan_parenEnd,
    Token.scan_tagClose, Token.scan_nil]

lemma parse_source : parse (source p) =
      .root [.text "<input ", .directive "model" (some p) [], .text ">"] := by
  simp [parse, tokenize_source hp, build, splitArgs, splitParens, Token.source,
    siblingNames, isBlock, blockNames, addText, Builder.directive,
    Builder.addText, Builder.modify, Builder.add, Builder.finish]

lemma compile_source :
    Routine.compile (source p) = (do
      let e ← expression "@model" p
      return routine p e) := by
  have hsimple : IsSimple "model" := ⟨rfl, rfl, by decide⟩
  rw [Routine.compile, parse_source hp, Routine.ofNode_of_extends?_eq_none rfl]
  simp only [children, nodes, node_of_isSimple hsimple]
  have hmodel : simple "model" (some p) = _ := model_of_isPath hp
  rw [hmodel]
  cases expression "@model" p <;> rfl

end

end Field

/-! ## Texts as markup -/

namespace Text

def specials : List Char :=
  ['&', '<', '>', '"', '\'']

lemma toList_escapeHtmlChar (c : Char) : (c ∉ specials ∧ (escapeHtmlChar c).toList = [c]) ∨
      c ∈ specials ∧ ∃ name, Unquoted name ∧ (escapeHtmlChar c).toList = name ++ [';'] := by
  by_cases hc : c ∈ specials
  · refine .inr ⟨hc, ?_⟩
    simp only [specials, mem_cons, not_mem_nil, or_false] at hc
    rcases hc with rfl | rfl | rfl | rfl | rfl
    · exact ⟨['&', 'a', 'm', 'p'], ⟨by decide, by decide⟩, rfl⟩
    · exact ⟨['&', 'l', 't'], ⟨by decide, by decide⟩, rfl⟩
    · exact ⟨['&', 'g', 't'], ⟨by decide, by decide⟩, rfl⟩
    · exact ⟨['&', 'q', 'u', 'o', 't'], ⟨by decide, by decide⟩, rfl⟩
    · exact ⟨['&', '#', 'x', '2', '7'], ⟨by decide, by decide⟩, rfl⟩
  · refine .inl ⟨hc, ?_⟩
    unfold escapeHtmlChar
    split
    all_goals first | exact absurd (by decide) hc | simp

lemma toList_escapeHtml (s : String) :
    (escapeHtml s).toList = s.toList.flatMap fun c => (escapeHtmlChar c).toList := by
  rw [escapeHtml, String.toList_join, flatMap_map]

lemma unquoted_escapeHtml (s : String) : Unquoted (escapeHtml s).toList := by
  have hchar (q : Char) (hq : q = '"' ∨ q = '\'') (c : Char) : q ∉ (escapeHtmlChar c).toList := by
    rcases toList_escapeHtmlChar c with ⟨hc, heq⟩ | ⟨-, name, hname, heq⟩
    · rw [heq, mem_singleton]
      rintro rfl
      rcases hq with rfl | rfl <;> exact hc (by decide)
    · rw [heq]
      rcases hq with rfl | rfl
      · simp [hname.double]
      · simp [hname.single]
  rw [toList_escapeHtml]
  constructor
  · simp [hchar _ (.inl rfl)]
  · simp [hchar _ (.inr rfl)]

/-- A text ends in characters that stand for themselves if it does so as markup. -/
lemma suffix_escapeHtml_iff (hm : ∀ c ∈ m, c ∉ ';' :: specials) (s : String) :
    m <:+ (escapeHtml s).toList ↔ m <:+ s.toList := by
  rw [toList_escapeHtml]
  generalize s.toList = cs
  have hlast (as bs : List Char) (a b : Char) : as ++ [a] <:+ bs ++ [b] ↔ as <:+ bs ∧ [a] = [b] :=
    suffix_append_inj_of_length_eq (by simp)
  induction m using reverseRecOn generalizing cs with
  | nil => simp
  | append_singleton m c ih =>
    have hc := hm c (by simp)
    simp only [mem_cons, not_or] at hc
    rcases eq_nil_or_concat cs with rfl | ⟨cs, d, rfl⟩
    · simp
    · rw [concat_eq_append, flatMap_append, flatMap_singleton, hlast]
      rcases toList_escapeHtmlChar d with ⟨hd, heq⟩ | ⟨hd, name, -, heq⟩
      · rw [heq, hlast]
        exact and_congr_left' (ih (fun a ha => hm a (by simp [ha])) cs)
      · rw [heq, ← append_assoc, hlast]
        have hsemicolon : [c] ≠ [';'] := by simpa using hc.1
        have hspecial : [c] ≠ [d] := by
          rintro ⟨⟩
          exact hc.2 hd
        simp [hsemicolon, hspecial]

lemma toList_escapeHtml_append (hm : ∀ c ∈ m, c ∉ specials) (s : String) :
    (escapeHtml (s ++ ofList m)).toList = (escapeHtml s).toList ++ m := by
  have hself : m.flatMap (fun c => (escapeHtmlChar c).toList) = m := by
    have hsingle : ∀ c ∈ m, (escapeHtmlChar c).toList = [c] := by
      intro c hc
      rcases toList_escapeHtmlChar c with ⟨-, heq⟩ | ⟨hspecial, -⟩
      · exact heq
      · exact absurd hspecial (hm c hc)
    rw [flatMap_congr hsingle, flatMap_singleton']
  rw [toList_escapeHtml, toList_append, flatMap_append, toList_ofList, hself, toList_escapeHtml]

end Text

namespace Binding

/-- A quote opens no checkbox where the text before it cannot end in `type` and a sign, or where
another text follows. -/
lemma mentionsCheckbox_quote (hcs : Unquoted cs) (h : 'y' ∉ cs ∨ rest.head? ≠ some 'c') :
    mentionsCheckbox (cs ++ '"' :: rest) = mentionsCheckbox rest := by
  have hlead : ¬ ((∃ l : Markup.Lead, l.print <:+ cs) ∧ ∃ q, Markup.word q <+: rest) := by
    rintro ⟨⟨l, hl⟩, q, more, rfl⟩
    exact h.elim (fun hy => hy (hl.subset (by simp [Markup.Lead.print]))) fun hc => hc rfl
  rw [Bool.eq_iff_iff, Markup.mentionsCheckbox_iff, Markup.mentionsCheckbox_iff]
  exact (Markup.spelled_quote (q := .double) hcs).trans (or_iff_right hlead)

/-! ## Tags with one marker -/

lemma quiet_before_spelling (k : BindingKind) (hcs : '"' ∉ cs) (hb : '"' ∉ b) (rest : List Char) :
    Quiet cs (b ++ (spelling k ++ '"' :: rest)) := by
  intro s hs hsuffix k' heq
  have hall : ∀ c ∈ s ++ (b ++ spelling k), (c != '"') = true := by
    refine bne_quote_of_not_mem fun hmem => ?_
    rcases mem_append.mp hmem with hmem | hmem
    · exact hcs (hsuffix.subset hmem)
    · exact (mem_append.mp hmem).elim hb (quote_not_mem_spelling k)
  have hspelled : (s ++ (b ++ (spelling k ++ '"' :: rest))).takeWhile (· != '"') =
      s ++ (b ++ spelling k) := by
    rw [← append_assoc b, ← append_assoc s, takeWhile_append_of_pos hall]
    simp
  -- It would have to be longer than markers are.
  have hlength : (s ++ (b ++ spelling k)).length = 13 := by
    rw [← hspelled, heq, length_spelling]
  rw [length_append, length_append, length_spelling] at hlength
  exact hs (length_eq_zero_iff.mp (by omega))

lemma stripTag_single (k : BindingKind)
    (hquiet : Quiet cs (b ++ (spelling k ++ '"' :: (t ++ '"' :: rest))))
    (hlast : ∀ c ∈ cs.getLast?, isBlank c = false) (hb : ∀ c ∈ b, isBlank c = true)
    (ht : '"' ∉ t) (hrest : Quiet rest []) (hend : ∀ c ∈ rest.getLast?, isBlank c = false) :
    stripTag (cs ++ (b ++ (spelling k ++ '"' :: (t ++ '"' :: rest)))) =
      ([(k, ofList t)], cs ++ rest) := by
  have hmore : stripTag rest = ([], rest) := by
    simpa [stripTag_nil] using stripTag_of_quiet hrest hend
  rw [stripTag_of_quiet hquiet hlast, stripTag_of_marker? (marker?_of_spelling k hb ht rest), hmore]

lemma extract_of_tag? (h : tag? cs = some (cs, [])) : extract (ofList cs) = ⟨ofList (stripTag cs).2,
      (number (mentionsCheckbox cs) {} (stripTag cs).1).1⟩ := by
  cases cs with
  | nil => cases h
  | cons c cs =>
    have hnil (n : Count) : extractFrom n [] = ([], []) := by rw [extractFrom.eq_def]
    rw [extract, toList_ofList, extractFrom_tag {} h, hnil, append_nil, append_nil]

end Binding

/-! ## The tag of a field -/

namespace Field

open Binding

def opening : List Char :=
  ['<', 'i', 'n', 'p', 'u', 't', ' ', 'v', 'a', 'l', 'u', 'e', '=']

def tag (w t : List Char) : List Char :=
  opening ++ '"' :: (w ++ '"' :: ' ' :: (spelling .model ++ '"' :: (t ++ ['"', '>'])))

lemma ofList_blank_spelling : ofList (' ' :: spelling .model) = " data-z-model=" := by
  decide

lemma tag?_tag (hw : '"' ∉ w) (ht : '"' ∉ t) : tag? (tag w t) = some (tag w t, []) := by
  have hopening : Closed ['n', 'p', 'u', 't', ' ', 'v', 'a', 'l', 'u', 'e', '='] :=
    closed_of_isPlain (by simp [isPlain])
  have hmarker : Closed (' ' :: spelling .model) :=
    closed_of_isPlain (forall_mem_cons.mpr ⟨rfl, fun _ hc => isPlain_of_mem_spelling hc⟩)
  have hclosed := ((hopening.append (closed_quoted (.inl rfl) hw)).append hmarker).append
    (closed_quoted (.inl rfl) ht)
  simpa [tag, opening] using tag?_of_closed (c := 'i') rfl hclosed []

lemma mentionsCheckbox_tag (hw : Unquoted w) (ht : Unquoted t) :
    mentionsCheckbox (tag w t) = false := by
  -- The names before the first and the third quote have no `y`, and the other two quotes are
  -- followed by a blank and by the end of the tag.
  rw [tag, mentionsCheckbox_quote ⟨by decide, by decide⟩ (.inl (by decide)),
    mentionsCheckbox_quote hw (.inr (by simp)), ← cons_append,
    mentionsCheckbox_quote ⟨by decide, by decide⟩ (.inl (by decide)),
    mentionsCheckbox_quote ht (.inr (by simp))]
  rfl

lemma quiet_opening (rest : List Char) : Quiet (opening ++ ['"']) rest :=
  quiet_quote (by decide) (fun k => by cases k <;> decide) rest

lemma quiet_end : Quiet ['>'] [] :=
  quiet_of_not_infix (fun k => by cases k <;> decide) nofun

lemma last_end (cs : List Char) : ∀ c ∈ (cs ++ ['>']).getLast?, isBlank c = false := by
  rw [getLast?_concat]
  rintro c ⟨⟩
  decide

lemma stripTag_tag (hw : '"' ∉ w) (hs : ∀ k, ¬ spelling k <:+ w) (ht : '"' ∉ t) :
    stripTag (tag w t) = ([(.model, ofList t)], opening ++ '"' :: (w ++ ['"', '>'])) := by
  have hshape : tag w t = opening ++ ['"'] ++ (w ++ ['"']) ++
      ([' '] ++ (spelling .model ++ '"' :: (t ++ '"' :: ['>']))) := by
    simp [tag]
  have hquiet (rest : List Char) : Quiet (opening ++ ['"'] ++ (w ++ ['"'])) rest :=
    (quiet_opening _).append (quiet_quote hw hs _)
  have hlast : ∀ c ∈ (opening ++ ['"'] ++ (w ++ ['"'])).getLast?, isBlank c = false := by
    rw [← append_assoc, getLast?_concat]
    rintro c ⟨⟩
    decide
  have hblank : ∀ c ∈ [' '], isBlank c = true := forall_mem_singleton.mpr (by decide)
  rw [hshape, stripTag_single .model (hquiet _) hlast hblank ht quiet_end (last_end [])]
  simp

/-- A value that ends as a marker begins takes the spelling of the real marker for its target. -/
lemma stripTag_tag_spelling (k : BindingKind) (hw : '"' ∉ w) (ht : '"' ∉ t)
    (hs : ∀ k, ¬ spelling k <:+ t) : stripTag (tag (w ++ spelling k) t) = ([(k, " data-z-model=")],
      opening ++ '"' :: (Text.trimEnd w ++ (t ++ ['"', '>']))) := by
  have hsplit : Text.trimEnd w ++ w.rtakeWhile Text.isBlank = w := List.rdropWhile_append_rtakeWhile
  have hshape : tag (w ++ spelling k) t = opening ++ ['"'] ++ Text.trimEnd w ++
      (w.rtakeWhile Text.isBlank ++
        (spelling k ++ '"' :: (' ' :: spelling .model ++ '"' :: (t ++ ['"'] ++ ['>'])))) := by
    nth_rewrite 1 [← hsplit]
    simp [tag]
  have hquiet (rest : List Char) : Quiet (opening ++ ['"'] ++ Text.trimEnd w)
      (w.rtakeWhile Text.isBlank ++ (spelling k ++ '"' :: rest)) := by
    have hfront : '"' ∉ Text.trimEnd w := fun hmem => hw (hsplit ▸ mem_append_left _ hmem)
    have hblanks : '"' ∉ w.rtakeWhile Text.isBlank :=
      fun hmem => hw (hsplit ▸ List.mem_append_right _ hmem)
    exact (quiet_opening _).append (quiet_before_spelling k hfront hblanks _)
  have hlast : ∀ c ∈ (opening ++ ['"'] ++ Text.trimEnd w).getLast?, Text.isBlank c = false := by
    intro c hc
    rw [getLast?_append, getLast?_concat] at hc
    by_cases hnil : Text.trimEnd w = []
    · rw [hnil] at hc
      cases hc
      decide
    · rw [getLast?_eq_some_getLast hnil] at hc
      cases hc
      exact Bool.eq_false_iff.mpr (rdropWhile_last_not _ _ hnil)
  have hblank : ∀ c ∈ w.rtakeWhile Text.isBlank, Text.isBlank c = true :=
    fun c hc => mem_rtakeWhile_imp hc
  have hquote : '"' ∉ ' ' :: spelling .model :=
    List.not_mem_cons_of_ne_of_not_mem (by decide) (quote_not_mem_spelling .model)
  rw [hshape, stripTag_single k (hquiet _) hlast hblank hquote
    ((quiet_quote ht hs _).append quiet_end) (last_end _), ofList_blank_spelling]
  simp only [append_assoc, cons_append, nil_append]

end Field

/-! ## Showing the field -/

namespace Render

open Program

variable {host : Host S H}

lemma finds_value (hr : (e.eval (environment host scope)).run.Finds h r) :
    (value host scope e).run.Finds h (r.mapError .eval) := by
  cases r with
  | ok v | error err => exact Finds.bind hr (.pure _)

def modelAttributes (w p : String) : String :=
  attributeText "value" w ++ " " ++ attributeText "data-z-model" p

lemma finds_model_nullish (hv : (e.eval (environment host scope)).run.Finds h (.ok v))
    (hnullish : v.isNullish = true) :
    (simple host scope (.model p e)).run.Finds h (.ok (modelAttributes "" p)) := by
  refine Finds.run_bind (finds_value hv) ?_
  rw [hnullish]
  exact .pure _

lemma finds_model (hv : (e.eval (environment host scope)).run.Finds h (.ok v))
    (hnullish : v.isNullish = false) (hs : ∀ n, h.displayWithin (n + 1) [] v = pure s) :
    (simple host scope (.model p e)).run.Finds h (.ok (modelAttributes (escapeHtml s) p)) := by
  have hshown : (display v : Rendering S String).run.Finds h (.ok s) :=
    Finds.run_lift (finds_read (Query.answer_display hs))
  have hescaped : (escapeHtml <$> display v : Rendering S String).run.Finds h
      (.ok (escapeHtml s)) := Finds.bind hshown (.pure _)
  refine Finds.run_bind (finds_value hv) ?_
  rw [hnullish]
  exact Finds.run_bind hescaped (.pure _)

def constantTexts : List String :=
  ["", "true", "false"]

lemma finds_model_constant (hconstant : Expr.IsConstant v)
    (hv : ∀ {S : Signature} (env : Environment S) (h : Heap), (e.eval env).run.Finds h (.ok v))
    (p : String) :
    ∃ w ∈ constantTexts, ∀ {S : Signature} {H : Type} (host : Host S H) (scope : Scope) (h : Heap),
      (simple host scope (.model p e)).run.Finds h (.ok (modelAttributes w p)) := by
  cases hconstant with
  | undefined | null => exact ⟨"", by decide, fun _ _ h => finds_model_nullish (hv _ h) rfl⟩
  | bool b =>
    refine ⟨escapeHtml (if b then "true" else "false"), ?_, fun _ _ h =>
      finds_model (hv _ h) rfl fun n => ?_⟩
    · cases b <;> decide
    · rfl

lemma finds_run_cons (hi : ∀ binder service, i ≠ .inject binder service)
    (hstep : (step host scope out i).run.Finds h (.ok (s, .onward)))
    (hrest : (run host scope 0 s rest).run.Finds h r) :
    (run host scope 0 out (i :: rest)).run.Finds h r := by
  rw [run_cons hi]
  exact Finds.run_bind hstep hrest

lemma finds_run_cons_error (hi : ∀ binder service, i ≠ .inject binder service)
    (hstep : (step host scope out i).run.Finds h (.error err)) (rest : List Instruction) :
    (run host scope 0 out (i :: rest)).run.Finds h (.error err) := by
  rw [run_cons hi]
  exact Finds.run_bind_error hstep _

end Render

namespace Field

open Binding Program

def html (p w : String) : String :=
  ofList (tag w.toList p.toList)

lemma html_eq (p w : String) : "" ++ "<input " ++ modelAttributes w p ++ ">" = html p w := by
  have hopening : "<input ".toList ++ ("value".toList ++ "=\"".toList) = opening ++ ['"'] := by
    decide
  have hmarker : "\"".toList ++ (" ".toList ++ ("data-z-model".toList ++ "=\"".toList)) =
      '"' :: ' ' :: (spelling .model ++ ['"']) := by
    decide
  have hend : "\"".toList ++ ">".toList = ['"', '>'] := by
    decide
  refine toList_inj.mp ?_
  calc
    _ = ("<input ".toList ++ ("value".toList ++ "=\"".toList)) ++ (w.toList ++
          (("\"".toList ++ (" ".toList ++ ("data-z-model".toList ++ "=\"".toList))) ++
            (p.toList ++ ("\"".toList ++ ">".toList)))) := by
      simp only [modelAttributes, attributeText, toList_append,
        append_assoc, String.toList_empty, nil_append]
    _ = (html p w).toList := by
      rw [hopening, hmarker, hend]
      simp only [html, tag, toList_ofList, append_assoc, cons_append, nil_append]

lemma finds_render (hr : (simple host scope (.model p e)).run.Finds h r) :
    ((routine p e).render host scope).run.Finds h (r.map fun s => "" ++ "<input " ++ s ++ ">") := by
  have htext (t out : String) : (step host scope out (.text t)).run.Finds h
      (.ok (out ++ t, .onward)) := .pure _
  cases r with
  | error err =>
    have hmodel (out : String) : (step host scope out (.model p e)).run.Finds h
        (.error err) := Finds.run_bind_error hr _
    exact Finds.run_bind_error (finds_run_cons (by nofun) (htext _ _)
      (finds_run_cons_error (by nofun) (hmodel _) _)) _
  | ok s =>
    have hmodel (out : String) : (step host scope out (.model p e)).run.Finds h
        (.ok (out ++ s, .onward)) := Finds.run_bind hr (.pure _)
    have hbody : (run host scope 0 "" (routine p e).body).run.Finds h
        (.ok ("" ++ "<input " ++ s ++ ">", .onward)) :=
      finds_run_cons (by nofun) (htext _ _) <| finds_run_cons (by nofun) (hmodel _) <|
        finds_run_cons (by nofun) (htext _ _) (.pure _)
    exact Finds.run_bind hbody (.pure _)

/-! ## What becomes of the binding -/

/-- A field that shows `w` and keeps its binding. -/
def bound (p w : String) : Extracted :=
  ⟨"<input value=\"" ++ w ++ "\">", [⟨.model, p, 0, false⟩]⟩

/-- A field whose value ends in the spelling of a marker. The value loses its end, the path is put
in its place, and the binding leads nowhere. -/
def spoilt (p w : String) (k : BindingKind) : Extracted :=
  ⟨"<input value=\"" ++ ofList (Text.trimEnd w.toList) ++ p ++ "\">",
    [⟨k, " data-z-model=", 0, false⟩]⟩

lemma extract_html {target : String} (hw : Unquoted w.toList) (hp : Unquoted p.toList)
    (hstrip : stripTag (tag w.toList p.toList) = ([(k, target)], cs)) :
    extract (html p w) = ⟨ofList cs, [⟨k, target, 0, false⟩]⟩ := by
  rw [html, extract_of_tag? (tag?_tag hw.double hp.double), hstrip, mentionsCheckbox_tag hw hp]
  cases k <;> rfl

lemma toList_opening : "<input value=\"".toList = opening ++ ['"'] := by
  decide

lemma toList_ending : "\">".toList = ['"', '>'] := by
  decide

lemma extract_html_eq_bound (hw : Unquoted w.toList) (hp : Unquoted p.toList)
    (hs : ∀ k, ¬ spelling k <:+ w.toList) : extract (html p w) = bound p w := by
  have hmarkup : ofList (opening ++ '"' :: (w.toList ++ ['"', '>'])) =
      "<input value=\"" ++ w ++ "\">" := by
    refine toList_inj.mp ?_
    rw [toList_append, toList_append, toList_opening, toList_ending,
      toList_ofList, append_assoc, append_assoc, singleton_append]
  rw [extract_html hw hp (stripTag_tag hw.double hs hp.double), ofList_toList, hmarkup]
  rfl

lemma extract_html_eq_spoilt {w' : String} (k : BindingKind) (hw : Unquoted w.toList)
    (hp : Unquoted p.toList) (hs : ∀ k, ¬ spelling k <:+ p.toList)
    (hend : w.toList = w'.toList ++ spelling k) : extract (html p w) = spoilt p w' k := by
  have hmarkup : ofList (opening ++ '"' :: (trimEnd w'.toList ++ (p.toList ++ ['"', '>']))) =
        "<input value=\"" ++ ofList (trimEnd w'.toList) ++ p ++ "\">" := by
    refine toList_inj.mp ?_
    simp only [toList_append, toList_opening, toList_ending, toList_ofList,
      append_assoc, cons_append, nil_append]
  have hfront : '"' ∉ w'.toList := fun hmem =>
    hw.double (hend ▸ mem_append_left _ hmem)
  have hstrip : stripTag (tag w.toList p.toList) = _ :=
    hend ▸ stripTag_tag_spelling k hfront hp.double hs
  rw [extract_html hw hp hstrip, hmarkup]
  rfl

lemma hyphen_mem_spelling (k : BindingKind) : '-' ∈ spelling k := by
  cases k <;> decide

lemma not_mem_specials_of_mem_spelling (hc : c ∈ spelling k) : c ∉ ';' :: specials := by
  have hall : (spelling k).all (fun c => decide (c ∉ ';' :: specials)) = true := by
    cases k <;> decide
  exact of_decide_eq_true (all_eq_true.mp hall c hc)

section

variable (hp : isPath p.toList = true)
include hp

lemma not_suffix_of_isPath (k : BindingKind) : ¬ spelling k <:+ p.toList := by
  intro hsuffix
  cases (dotted_pathNames hp).isPathChar '-' (hsuffix.subset (hyphen_mem_spelling k))

lemma unquoted_of_isPath : Unquoted p.toList := by
  have hchars := (dotted_pathNames hp).isPathChar
  refine ⟨fun hmem => ?_, fun hmem => ?_⟩
  · cases hchars _ hmem
  · cases hchars _ hmem

/-- The binding of a field survives every text but those that end as a marker begins. -/
lemma extract_html_text (v : String) :
    (extract (html p (escapeHtml v)) = bound p (escapeHtml v) ↔
      ∀ k, ¬ spelling k <:+ v.toList) ∧ ∀ k v', v = v' ++ ofList (spelling k) →
      extract (html p (escapeHtml v)) = spoilt p (escapeHtml v') k := by
  have hquotes := unquoted_of_isPath hp
  have hspoilt : ∀ k v', v = v' ++ ofList (spelling k) →
      extract (html p (escapeHtml v)) = spoilt p (escapeHtml v') k := by
    rintro k v' rfl
    refine extract_html_eq_spoilt k (unquoted_escapeHtml _) hquotes
      (not_suffix_of_isPath hp) (toList_escapeHtml_append (fun c hc => ?_) v')
    exact fun hspecial => not_mem_specials_of_mem_spelling hc (mem_cons_of_mem _ hspecial)
  refine ⟨⟨fun hbound k hsuffix => ?_, fun hs => ?_⟩, hspoilt⟩
  · -- The two outcomes differ in the target, for no path has a blank.
    obtain ⟨front, hfront⟩ := hsuffix
    have hv : v = ofList front ++ ofList (spelling k) := by
      rw [← String.ofList_append, hfront, ofList_toList]
    rw [hspoilt k _ hv] at hbound
    have htarget : " data-z-model=" = p := by
      injection hbound with _ hbindings
      injection hbindings with hbinding _
      injection hbinding
    rw [← htarget] at hp
    cases hp
  · refine extract_html_eq_bound (unquoted_escapeHtml _) hquotes fun k => ?_
    rw [suffix_escapeHtml_iff (fun c hc => not_mem_specials_of_mem_spelling hc)]
    exact hs k

lemma extract_html_constant (hw : w ∈ constantTexts) : extract (html p w) = bound p w := by
  have hplain : '"' ∉ w.toList ∧ '\'' ∉ w.toList ∧ '-' ∉ w.toList := by
    simp only [constantTexts, mem_cons, not_mem_nil, or_false] at hw
    rcases hw with rfl | rfl | rfl <;> decide
  obtain ⟨hdouble, hsingle, hhyphen⟩ := hplain
  exact extract_html_eq_bound ⟨hdouble, hsingle⟩ (unquoted_of_isPath hp) fun k hsuffix =>
    hhyphen (hsuffix.subset (hyphen_mem_spelling k))

end

lemma finds_fixed (he : e.IsFixed) (p : String) : ∃ out : Except RenderError String,
      (∀ markup, out = .ok markup → ∃ w ∈ constantTexts, markup = html p w) ∧
      ∀ {S : Signature} {H : Type} (host : Host S H) (scope : Scope) (h : Heap),
        ((routine p e).render host scope).run.Finds h out := by
  obtain ⟨r, hconstant, hfinds⟩ := he
  cases r with
  | error err =>
    refine ⟨.error (.eval err), nofun, fun host scope h => ?_⟩
    have hmodel : (simple host scope (.model p e)).run.Finds h (.error (.eval err)) :=
      Finds.run_bind_error (finds_value (hfinds _ h)) _
    exact finds_render hmodel
  | ok v =>
    obtain ⟨w, hw, hmodel⟩ := finds_model_constant (hconstant v rfl) hfinds p
    refine ⟨.ok (html p w), ?_, fun host scope h => ?_⟩
    · rintro markup ⟨⟩
      exact ⟨w, hw, rfl⟩
    · rw [← html_eq]
      exact finds_render (hmodel host scope h)

lemma run_render_text (hn : n ∉ Expr.literalWords) (host : Host S H) (scope : Scope)
    (call : Caller S) (world : World S) (hlocal : scope.local? n = none)
    (hv : world.heap.StoresAt (.text v) scope.data (n :: ns)) :
    ∃ slots, ((routine p (Expr.access (ExprParser.wordExpr n) ns)).render host scope).run.run
      call world = some (.ok (html p (escapeHtml v)), world.trackAll slots) := by
  refine Finds.run ?_ call
  rw [← html_eq]
  exact finds_render (finds_model (Expr.finds_path hn hlocal rfl hv) rfl fun _ => rfl)

/-- A field whose path starts with no literal shows the text that is stored under the path and keeps
its binding, unless that text ends as a marker begins. One whose path starts with a literal shows a
constant or fails, and does not look at what is stored. -/
theorem keeps_binding_iff (hp : Clause.isPath p.toList = true) {r : Routine}
    (hr : Routine.compile (source p) = .ok r) :
    ∃ n ns, View.pathNames p = n :: ns ∧
      (n ∉ Expr.literalWords → ∀ {S : Signature} {H : Type} (host : Host S H) (scope : Scope)
        (call : Caller S) (world : World S) (v : String), scope.local? n = none →
        world.heap.StoresAt (.text v) scope.data (n :: ns) →
        ∃ markup slots,
          (r.render host scope).run.run call world = some (.ok markup, world.trackAll slots) ∧
          (extract markup = bound p (Text.escapeHtml v) ↔ ∀ k, ¬ spelling k <:+ v.toList) ∧
          ∀ k v', v = v' ++ String.ofList (spelling k) →
            extract markup = spoilt p (Text.escapeHtml v') k) ∧
      (n ∈ Expr.literalWords → ∃ out : Except RenderError String,
        (∀ markup, out = .ok markup → ∃ w ∈ Render.constantTexts, extract markup = bound p w) ∧
        ∀ {S : Signature} {H : Type} (host : Host S H) (scope : Scope) (call : Caller S)
          (world : World S), ∃ slots,
          (r.render host scope).run.run call world = some (out, world.trackAll slots)) := by
  rw [compile_source hp] at hr
  obtain ⟨e, he, hroutine⟩ := ok_of_bind hr
  cases hroutine
  obtain ⟨n, ns, hnames, rfl⟩ := Expr.eq_access_of_parse hp (parse_of_expression he)
  refine ⟨n, ns, hnames, fun hn S H host scope call world v hlocal hv => ?_, fun hn => ?_⟩
  · obtain ⟨slots, hrun⟩ := run_render_text hn host scope call world hlocal hv
    exact ⟨_, slots, hrun, extract_html_text hp v⟩
  · obtain ⟨out, hout, hfinds⟩ := finds_fixed ((Expr.isFixed_of_literal hn).access ns) p
    refine ⟨out, fun markup hmarkup => ?_, fun host scope call world => ?_⟩
    · obtain ⟨w, hw, rfl⟩ := hout markup hmarkup
      exact ⟨w, hw, extract_html_constant hp hw⟩
    · exact (hfinds host scope world.heap).run call

/-! ### The name of a user -/

lemma tokenize_user_name :
    tokenize "user.name" = .ok [.name "user", .punct .dot, .name "name"] := by
  have huser (total : Nat) : next total 'u' ['s', 'e', 'r', '.', 'n', 'a', 'm', 'e'] =
      .ok (some (.name "user"), ['.', 'n', 'a', 'm', 'e']) :=
    next_of_isNameStart rfl
  have hname (total : Nat) : next total 'n' ['a', 'm', 'e'] = .ok (some (.name "name"), []) :=
    next_of_isNameStart rfl
  exact scan_cons (huser _) <| scan_cons (next_dot rfl) <| scan_cons (hname _) (scan_nil _)

lemma parse_user_name : Expr.parse "user.name" = .ok (.member (.name "user") "name") := by
  have hprintable : (Expr.member (.name "user") "name").Printable :=
    ⟨⟨by decide, by decide⟩, by decide⟩
  have hderives := (Expr.derives_tokens hprintable).loosest
  exact (Expr.parse_eq_ok_iff tokenize_user_name).mpr (ExprParser.reads_all_iff.mpr hderives)

lemma isPath_user_name : isPath "user.name".toList = true := by
  decide

lemma compile_user_name : Routine.compile (source "user.name") =
    .ok (routine "user.name" (Expr.access (ExprParser.wordExpr "user") ["name"])) := by
  have hexpression : expression "@model" "user.name" =
      .ok (.member (.name "user") "name") := by
    rw [expression, parse_user_name]
  rw [compile_source isPath_user_name, hexpression]
  rfl

/-- The data of a user with the given name. -/
def userNamed (v : String) : Heap where
  objects := #[.ofList [("user", .object ⟨1⟩)], .ofList [("name", .text v)]]

lemma storesAt_userNamed (v : String) : (userNamed v).StoresAt (.text v) ⟨0⟩ ["user", "name"] :=
  .inside rfl (.here rfl)

theorem keeps_binding_iff_user_name :
    Clause.isPath "user.name".toList = true ∧
      ∃ r, Routine.compile (source "user.name") = .ok r ∧
        ∀ {S : Signature} {H : Type} (host : Host S H) (call : Caller S) (state : S.State),
          ∃ markup w, (r.render host ⟨⟨0⟩, .empty, []⟩).run.run call
              { heap := userNamed "Ann & \"Bob\"", state := state } = some (.ok markup, w) ∧
            extract markup = ⟨"<input value=\"Ann &amp; &quot;Bob&quot;\">",
              [⟨.model, "user.name", 0, false⟩]⟩ := by
  refine ⟨isPath_user_name, _, compile_user_name, fun {S H} host call state => ?_⟩
  obtain ⟨n, ns, hnames, hkeeps, -⟩ := keeps_binding_iff isPath_user_name compile_user_name
  have hpath : View.pathNames "user.name" = ["user", "name"] := by decide
  rw [hpath] at hnames
  cases hnames
  obtain ⟨markup, slots, hrun, hkept, -⟩ := hkeeps (by decide) host ⟨⟨0⟩, .empty, []⟩ call
    { heap := userNamed "Ann & \"Bob\"", state := state } _ rfl (storesAt_userNamed _)
  refine ⟨markup, _, hrun, (hkept.mpr fun k => ?_).trans ?_⟩
  · cases k <;> decide
  · decide

/-- A user can be named so that the field is bound to nothing, and shows its own path. -/
theorem user_name_loses_binding :
    ∃ r, Routine.compile (source "user.name") = .ok r ∧
      ∀ {S : Signature} {H : Type} (host : Host S H) (call : Caller S) (state : S.State),
        ∃ markup w, (r.render host ⟨⟨0⟩, .empty, []⟩).run.run call
            { heap := userNamed "data-z-click=", state := state } = some (.ok markup, w) ∧
          extract markup = ⟨"<input value=\"user.name\">",
            [⟨.click, " data-z-model=", 0, false⟩]⟩ := by
  refine ⟨_, compile_user_name, fun {S H} host call state => ?_⟩
  obtain ⟨slots, hrun⟩ := run_render_text (p := "user.name") (by decide) host ⟨⟨0⟩, .empty, []⟩ call
    { heap := userNamed "data-z-click=", state := state } rfl (storesAt_userNamed _)
  refine ⟨_, _, hrun, ?_⟩
  rw [(extract_html_text isPath_user_name _).2 .click "" (by decide)]
  decide

end Field

end LiveMarkup
