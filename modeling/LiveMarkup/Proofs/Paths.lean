import LiveMarkup.Proofs.Compiling
import LiveMarkup.Proofs.Cutting
import LiveMarkup.Proofs.Freshness
import LiveMarkup.Proofs.Recognition
import LiveMarkup.Proofs.Stripping
import LiveMarkup.View.Mount

/-!
# Property paths

A path is a sequence of names with dots between them. It is cut at its dots when something is
written to it, and read as an expression when it is shown. Both see the same names: a path that is
an expression is the access to one name after the other, and it finds what is stored under those
names. The only exception is a path that starts with a literal, `true` for instance, which never
looks at what is stored.
-/

namespace LiveMarkup

open List Text List
open Bool (and_eq_true or_eq_true)

variable {c : Char} {cs : List Char} {ns : List String} {n : String} {e : Expr} {v : Value}
  {total : Nat} {ts : List ExprToken}

/-! ## Characters of paths -/

namespace Text

-- The table is only evaluated here, at the nineteen code points.
lemma not_wordExtra_wideBlanks :
    (wideBlanks.all fun n => !CharSet.reaches false wordExtra.runs n) = true := by
  decide +kernel

lemma isBlank_of_isWord (h : isWord c = true) : isBlank c = false := by
  refine Bool.eq_false_iff.mpr fun hblank => ?_
  rw [isWord] at h
  split at h
  next hascii =>
    simp only [isBlank, or_eq_true, and_eq_true, decide_eq_true_eq, beq_iff_eq] at hblank
    rw [Char.isAlphanum, or_eq_true, or_eq_true, isAlpha_iff, isDigit_iff, beq_iff_eq] at h
    rcases h with h | rfl
    · omega
    · revert hblank
      decide
  next hwide =>
    have hmem := mem_wideBlanks hblank hwide
    rw [or_eq_true] at h
    rw [CharSet.contains, CharSet.contains] at h
    rcases h with h | h
    · have hout := all_eq_true.mp not_alphabetic_wideBlanks _ hmem
      simp [h] at hout
    · have hout := all_eq_true.mp not_wordExtra_wideBlanks _ hmem
      simp [h] at hout

end Text

namespace Clause

def isPathChar (c : Char) : Bool :=
  isNameRest c || c == '.'

lemma isNameRest_of_isNameStart (h : isNameStart c = true) : isNameRest c = true := by
  simp only [isNameStart, or_eq_true, beq_iff_eq] at h
  rcases h with (halpha | rfl) | rfl
  · have hascii := isAlpha_iff.mp halpha
    rw [isNameRest, isWord, if_pos (by omega), Char.isAlphanum, halpha]
    rfl
  · decide
  · decide

lemma isBlank_of_isPathChar (h : isPathChar c = true) : isBlank c = false := by
  simp only [isPathChar, isNameRest, or_eq_true, beq_iff_eq] at h
  rcases h with (h | rfl) | rfl
  · exact isBlank_of_isWord h
  · decide
  · decide

lemma ne_of_isPathChar (hc : isPathChar c = true) (hd : isPathChar d = false) : c ≠ d := by
  rintro rfl
  rw [hc] at hd
  cases hd

/-! ## Segments -/

/-- Names with dots between them. -/
inductive Dotted : List String → List Char → Prop
  | last {n : String} (hn : isName n.toList = true) : Dotted [n] n.toList
  | more {n : String} {ns : List String} {cs : List Char} (hn : isName n.toList = true)
      (hns : Dotted ns cs) : Dotted (n :: ns) (n.toList ++ '.' :: cs)

def joined : List (List Char) → List Char
  | [] => []
  | [s] => s
  | s :: t :: rest => s ++ '.' :: joined (t :: rest)

lemma exists_segments (cs : List Char) : ∃ s rest, segments cs = s :: rest := by
  cases cs with
  | nil => exact ⟨[], [], rfl⟩
  | cons c cs =>
    rw [segments]
    split
    · exact ⟨_, _, rfl⟩
    · split <;> exact ⟨_, _, rfl⟩

lemma segments_cons_of_ne (hc : c ≠ '.') (h : segments cs = s :: rest) :
    segments (c :: cs) = (c :: s) :: rest := by
  rw [segments, if_neg (by simpa using hc), h]

lemma joined_segments (cs : List Char) : joined (segments cs) = cs := by
  induction cs with
  | nil => rfl
  | cons c cs ih =>
    obtain ⟨s, rest, h⟩ := exists_segments cs
    rw [h] at ih
    by_cases hc : c = '.'
    · rw [hc, segments, if_pos (beq_self_eq_true '.'), h, joined, ih]
      rfl
    · rw [segments_cons_of_ne hc h]
      cases rest with
      | nil | cons t rest => exact congrArg (c :: ·) ih

lemma dotted_joined (hne : segs ≠ []) (h : segs.all isName = true) :
    Dotted (segs.map String.ofList) (joined segs) := by
  induction segs with
  | nil => exact absurd rfl hne
  | cons s rest ih =>
    rw [all_cons, and_eq_true] at h
    have hs : isName (String.ofList s).toList = true := by
      rw [String.toList_ofList]
      exact h.1
    cases rest with
    | nil => simpa [joined] using Dotted.last hs
    | cons t rest => simpa [joined] using Dotted.more hs (ih (cons_ne_nil t rest) h.2)

lemma splitFrom_dot (piece cs s : List Char) (rest : List (List Char))
    (h : segments cs = s :: rest) : splitFrom ['.'] 0 piece cs = (piece.reverse ++ s) :: rest := by
  induction cs generalizing piece s rest with
  | nil =>
    cases h
    simp [splitFrom]
  | cons c cs ih =>
    obtain ⟨t, more, hcs⟩ := exists_segments cs
    by_cases hc : c = '.'
    · rw [hc, segments, if_pos (beq_self_eq_true '.'), hcs] at h
      cases h
      simp [hc, splitFrom, ih [] t more hcs]
    · rw [segments_cons_of_ne hc hcs] at h
      cases h
      simp [splitFrom, Ne.symm hc, ih (c :: piece) t rest hcs]

lemma dotted_pathNames (h : isPath p.toList = true) : Dotted (View.pathNames p) p.toList := by
  obtain ⟨s, rest, hsegs⟩ := exists_segments p.toList
  have hnames : View.pathNames p = (segments p.toList).map String.ofList := by
    rw [View.pathNames, Text.splitOn, if_neg (by simp), splitFrom_dot [] _ s rest hsegs, hsegs]
    rfl
  have hdotted := dotted_joined (hsegs ▸ cons_ne_nil s rest) h
  rwa [joined_segments, ← hnames] at hdotted

lemma Dotted.isPathChar (h : Dotted ns cs) : ∀ c ∈ cs, isPathChar c = true := by
  have hname : ∀ {n : List Char}, isName n = true → ∀ c ∈ n, Clause.isPathChar c = true := by
    intro n hn c hc
    cases n with
    | nil => cases hc
    | cons d ds =>
      rw [isName, and_eq_true, all_eq_true] at hn
      rw [Clause.isPathChar, or_eq_true]
      rcases mem_cons.mp hc with rfl | hc
      · exact .inl (isNameRest_of_isNameStart hn.1)
      · exact .inl (hn.2 c hc)
  induction h with
  | last hn => exact hname hn
  | more hn _ ih =>
    intro c hc
    rcases mem_append.mp hc with hc | hc
    · exact hname hn c hc
    · rcases mem_cons.mp hc with rfl | hc
      · decide
      · exact ih c hc

lemma Dotted.ne_nil (h : Dotted ns cs) : ns ≠ [] := by
  cases h <;> exact cons_ne_nil _ _

lemma Dotted.head (h : Dotted ns cs) : ∃ c rest, cs = c :: rest ∧ isNameStart c = true := by
  have hname : ∀ {n : List Char}, isName n = true →
      ∃ c rest, n = c :: rest ∧ isNameStart c = true := by
    intro n hn
    cases n with
    | nil => cases hn
    | cons c rest =>
      rw [isName, and_eq_true] at hn
      exact ⟨c, rest, rfl, hn.1⟩
  cases h with
  | last hn => exact hname hn
  | more hn =>
    obtain ⟨c, rest, hcs, hc⟩ := hname hn
    exact ⟨c, rest ++ '.' :: _, by rw [hcs]; rfl, hc⟩

end Clause

/-! ## Paths as expressions -/

namespace ExprToken

def ofPath : List String → List ExprToken
  | [] => []
  | [n] => [.name n]
  | n :: ns => .name n :: .punct .dot :: ofPath ns

lemma ofPath_cons (h : ns ≠ []) : ofPath (n :: ns) = .name n :: .punct .dot :: ofPath ns := by
  cases ns with
  | nil => exact absurd rfl h
  | cons m ns => rfl

lemma isNameStart_of_clause (h : Clause.isNameStart c = true) : isNameStart c = true := by
  simp only [Clause.isNameStart, or_eq_true, beq_iff_eq] at h
  rcases h with (halpha | rfl) | rfl
  · simp [isNameStart, isAlphabetic_of_isAlpha halpha]
  · decide
  · decide

/-- A character of a path that no name of an expression has is no token at all. -/
lemma next_eq_error (hc : Clause.isNameRest c = true) (hname : isNameRest c = false) (total : Nat)
    (cs : List Char) : ∃ e, next total c cs = .error e := by
  have hblank : isBlank c = false :=
    Clause.isBlank_of_isPathChar (by rw [Clause.isPathChar, hc]; rfl)
  simp only [isNameRest, isAlphanumeric, Bool.or_eq_false_iff, beq_eq_false_iff_ne] at hname
  obtain ⟨⟨⟨halpha, hnumeric⟩, hunderscore⟩, hdollar⟩ := hname
  have hwide : ¬ c.toNat < 0x80 := by
    intro hascii
    rw [isAlphabetic, if_pos hascii] at halpha
    rw [isNumeric, if_pos hascii] at hnumeric
    simp [Clause.isNameRest, isWord, hascii, Char.isAlphanum, halpha, hnumeric, hunderscore,
      hdollar] at hc
  have hne : ∀ d : Char, d.toNat < 0x80 → (c == d) = false := by
    intro d hd
    refine beq_eq_false_iff_ne.mpr ?_
    rintro rfl
    exact hwide hd
  have hdigit : c.isDigit = false := by
    refine Bool.eq_false_iff.mpr fun h => hwide ?_
    rw [isDigit_iff] at h
    omega
  have hpunct : Punct.atStart? (c :: cs) = none := by
    refine find?_eq_none.mpr fun p _ hp => ?_
    have hfirst : ∃ d ds, p.text.toList = d :: ds ∧ d.toNat < 0x80 := by
      cases p <;> exact ⟨_, _, rfl, by decide⟩
    obtain ⟨d, ds, htext, hd⟩ := hfirst
    rw [htext, isPrefixOf_cons_cons, and_eq_true, beq_iff_eq] at hp
    exact hwide (hp.1 ▸ hd)
  refine ⟨.unexpectedChar c (total - byteSize (c :: cs)), ?_⟩
  simp [next, hblank, hdigit, hne '.' (by decide), hne '\'' (by decide), hne '"' (by decide),
    hne '`' (by decide), isNameStart, halpha, hunderscore, hdollar, hpunct]

variable {rest : List Char}

lemma scan_cons_inv (hnext : next total c cs = .ok (t, rest))
    (hscan : scan total (c :: cs) = .ok ts) :
    ∃ ts', scan total rest = .ok ts' ∧ ts = t.toList ++ ts' := by
  rw [scan.eq_def] at hscan
  dsimp only at hscan
  split at hscan
  next h => cases hscan
  next h =>
    rw [hnext] at h
    cases h
    split at hscan
    next => cases hscan
    next ts' hts' =>
      cases hscan
      exact ⟨ts', hts', rfl⟩

lemma scan_ne_ok_of_next {e : ExprError} (hnext : next total c cs = .error e)
    (ts : List ExprToken) : scan total (c :: cs) ≠ .ok ts := by
  rw [scan.eq_def]
  dsimp only
  split
  next => rintro ⟨⟩
  next h =>
    rw [hnext] at h
    cases h

/-- A name of a path up to its end is one token, or else nothing is read at all. -/
lemma scan_name_inv (hn : Clause.isName n.toList = true) (hrest : ∀ c ∈ rest.head?, c = '.')
    (hscan : scan total (n.toList ++ rest) = .ok ts) :
    ∃ ts', scan total rest = .ok ts' ∧ ts = .name n :: ts' := by
  cases hcs : n.toList with
  | nil =>
    rw [hcs] at hn
    cases hn
  | cons c cs =>
    rw [hcs, Clause.isName, and_eq_true, all_eq_true] at hn
    rw [hcs, cons_append] at hscan
    obtain ⟨ts', hscan', rfl⟩ :=
      scan_cons_inv (next_of_isNameStart (isNameStart_of_clause hn.1)) hscan
    have hall : ∀ d ∈ cs, isNameRest d = true := by
      -- The first character that names of expressions do not have starts no token either.
      by_contra hnot
      have hdrop : (cs.dropWhile isNameRest) ≠ [] := by
        rw [ne_eq, dropWhile_eq_nil_iff]
        exact hnot
      obtain ⟨d, ds, hds⟩ := exists_cons_of_ne_nil hdrop
      have hd : isNameRest d = false := by
        have := head_dropWhile_not isNameRest hdrop
        simpa [hds] using this
      have hmem : d ∈ cs := (dropWhile_suffix isNameRest).subset (hds ▸ mem_cons_self)
      obtain ⟨e, he⟩ := next_eq_error (hn.2 d hmem) hd total (ds ++ rest)
      rw [dropWhile_append, if_neg (by simp [hds]), hds] at hscan'
      exact scan_ne_ok_of_next he _ hscan'
    have hstop : ∀ d ∈ rest.head?, isNameRest d = false := by
      intro d hd
      rw [hrest d hd]
      decide
    obtain ⟨htake, hdrop⟩ := Token.takeWhile_append_of_all hall hstop
    rw [hdrop] at hscan'
    refine ⟨ts', hscan', ?_⟩
    rw [htake, ← hcs, String.ofList_toList]
    rfl

lemma next_dot (hc : Clause.isNameStart c = true) :
    next total '.' (c :: cs) = .ok (some (.punct .dot), c :: cs) := by
  have hdigit : c.isDigit = false := by
    simp only [Clause.isNameStart, or_eq_true, beq_iff_eq] at hc
    rcases hc with (halpha | rfl) | rfl
    · exact isDigit_of_isAlphabetic (isAlphabetic_of_isAlpha halpha)
    · decide
    · decide
  have hblank : isBlank '.' = false := by decide
  have hname : isNameStart '.' = false := by decide
  have hpunct : Punct.atStart? ('.' :: c :: cs) = some .dot := rfl
  have hlength : Punct.dot.text.length - 1 = 0 := rfl
  simp [next, hblank, hdigit, hname, hpunct, hlength]

lemma tokens_of_dotted (h : Clause.Dotted ns cs)
    (hscan : scan total cs = .ok ts) : ts = ofPath ns := by
  induction h generalizing ts with
  | @last n hn =>
    rw [← append_nil n.toList] at hscan
    obtain ⟨ts', hscan', rfl⟩ := scan_name_inv hn (by simp) hscan
    rw [scan_nil] at hscan'
    cases hscan'
    rfl
  | @more n ns cs hn hns ih =>
    obtain ⟨ts1, hscan1, rfl⟩ := scan_name_inv hn (by simp) hscan
    obtain ⟨c, rest, rfl, hc⟩ := hns.head
    obtain ⟨ts2, hscan2, rfl⟩ := scan_cons_inv (next_dot hc) hscan1
    rw [ih hscan2, ofPath_cons hns.ne_nil]
    rfl

end ExprToken

namespace Expr

open ExprParser

def access (first : Expr) (ns : List String) : Expr :=
  ns.foldl Expr.member first

lemma ofPath_eq (n : String) (ns : List String) :
    ExprToken.ofPath (n :: ns) = .name n :: ns.flatMap fun m => [.punct .dot, .name m] := by
  induction ns generalizing n with
  | nil => rfl
  | cons m ns ih =>
    rw [ExprToken.ofPath_cons (cons_ne_nil m ns), ih, flatMap_cons]
    rfl

lemma reads_accesses_names :
    Reads (accesses left (ns.flatMap fun m => [.punct .dot, .name m])) e r ↔
      access left ns = e ∧ [] = r := by
  induction ns generalizing left with
  | nil => exact reads_accesses_stop (by rintro ⟨p, rest, heq, -⟩; cases heq)
  | cons m ns ih =>
    exact reads_accesses_member.trans ih

lemma eq_access_of_parse (hp : Clause.isPath p.toList = true) (he : parse p = .ok e) :
    ∃ n ns, View.pathNames p = n :: ns ∧ e = access (wordExpr n) ns := by
  have hdotted := Clause.dotted_pathNames hp
  obtain ⟨n, ns, hnames⟩ := exists_cons_of_ne_nil hdotted.ne_nil
  refine ⟨n, ns, hnames, ?_⟩
  obtain ⟨ts, htokens, hreads⟩ := exists_tokens_of_parse he
  have hts : ts = _ := ExprToken.tokens_of_dotted hdotted htokens
  rw [hnames, ofPath_eq] at hts
  subst hts
  obtain ⟨left, r1, hleft, hrest⟩ := reads_expression.mp hreads
  by_cases htypeof : n = "typeof"
  -- what follows the operator is no operand
  · subst htypeof
    obtain ⟨e', hoperand, -⟩ := (reads_operand_apply .typeof).mp hleft
    cases ns with
    | nil => exact absurd hoperand not_reads_operand_nil
    | cons m ns =>
      obtain ⟨e1, r2, hprimary, -⟩ := (reads_operand_primary rfl).mp hoperand
      rw [primary.eq_8 _ _ (by simp) (by simp) (by simp)] at hprimary
      exact absurd hprimary not_reads_error
  · have hword : prefixOf (.name n) = none := by
      rw [prefixOf.eq_5] <;> simp_all
    obtain ⟨e1, r2, hprimary, haccess⟩ := (reads_operand_primary hword).mp hleft
    rw [primary.eq_4] at hprimary
    obtain ⟨rfl, rfl⟩ := reads_pure.mp hprimary
    obtain ⟨rfl, rfl⟩ := reads_accesses_names.mp haccess
    rw [reads_operators_stop (by rintro ⟨l, q, rest, heq, -⟩; cases heq)] at hrest
    exact hrest.1.symm

end Expr

/-! ## What a path finds -/

/-- Names lead through objects to a value. -/
inductive Heap.StoresAt (h : Heap) (v : Value) : ObjectId → List String → Prop
  | here {o : ObjectId} {n : String} (hv : (h.fields o).get? n = some v) : StoresAt h v o [n]
  | inside {o o' : ObjectId} {n : String} {ns : List String}
      (hnext : (h.fields o).get? n = some (.object o')) (hns : StoresAt h v o' ns) :
      StoresAt h v o (n :: ns)

namespace Program

variable {S : Signature} {α β : Type} {h : Heap}

/-- A program that only asks questions ends with `a`. -/
def Finds (h : Heap) (p : Program S α) (a : α) : Prop :=
  ∃ slots, p.findings h = some (a, slots)

variable {q : Query} {a : α} {p : Program S α}

lemma finds_step {next : q.Answer → Program S α} :
    Finds h (step (.read q) next) a ↔ ∃ r, q.answer h = some r ∧ (next r.1).Finds h a := by
  constructor
  · rintro ⟨slots, hfind⟩
    rw [findings] at hfind
    obtain ⟨r, hanswer, hrest⟩ := Option.bind_eq_some_iff.mp hfind
    obtain ⟨⟨b, more⟩, hnext, heq⟩ := Option.map_eq_some_iff.mp hrest
    cases heq
    exact ⟨r, hanswer, more, hnext⟩
  · rintro ⟨⟨b, slots⟩, hanswer, more, hnext⟩
    refine ⟨slots ++ more, ?_⟩
    rw [findings, hanswer]
    exact congrArg (Option.map _) hnext

lemma Finds.pure (a : α) : Finds h (Pure.pure a : Program S α) a := ⟨[], rfl⟩

lemma finds_read {a : q.Answer} (ha : q.answer h = some (a, slots)) :
    Finds h (read q : Program S q.Answer) a :=
  finds_step.mpr ⟨_, ha, .pure a⟩

lemma Finds.bind (hp : p.Finds h a) (hf : (f a).Finds h b) : (p >>= f).Finds h b := by
  induction p with
  | done c =>
    obtain ⟨slots, hfind⟩ := hp
    cases hfind
    exact hf
  | step op next ih =>
    cases op with
    | read q =>
      obtain ⟨r, hanswer, hnext⟩ := finds_step.mp hp
      exact finds_step.mpr ⟨r, hanswer, ih r.1 hnext⟩
    | _ =>
      obtain ⟨slots, hfind⟩ := hp
      cases hfind

lemma Finds.run {w : World S} (hp : p.Finds w.heap a) (call : Caller S) :
    ∃ slots, p.run call w = some (a, w.trackAll slots) := by
  induction p generalizing w with
  | done b =>
    obtain ⟨slots, hfind⟩ := hp
    cases hfind
    exact ⟨[], rfl⟩
  | step op next ih =>
    cases op with
    | read q =>
      obtain ⟨r, hanswer, hnext⟩ := finds_step.mp hp
      rw [← World.heap_trackAll w r.2] at hnext
      obtain ⟨more, hrun⟩ := ih r.1 hnext
      refine ⟨r.2 ++ more, ?_⟩
      rw [run_step, Op.perform, hanswer, World.trackAll_append]
      exact hrun
    | _ =>
      obtain ⟨slots, hfind⟩ := hp
      cases hfind

variable {ε : Type}

lemma Finds.run_bind {f : α → ExceptT ε (Program S) β} (hx : x.run.Finds h (.ok a))
    (hf : (f a).run.Finds h r) : (x >>= f).run.Finds h r := by
  exact Finds.bind hx hf

lemma Finds.run_bind_error {e : ε} (hx : x.run.Finds h (.error e))
    (f : α → ExceptT ε (Program S) β) : (x >>= f).run.Finds h (.error e) := by
  exact Finds.bind hx (.pure _)

lemma Finds.run_lift (hp : p.Finds h a) :
    (ExceptT.lift p : ExceptT ε (Program S) α).run.Finds h (.ok a) :=
  Finds.bind (f := fun a => Pure.pure (Except.ok a)) hp (.pure _)

end Program

lemma Query.answer_display (hs : ∀ n, h.displayWithin (n + 1) [] v = pure s) :
    (Query.display v).answer h = some (s, []) := by
  have hpos : 0 < h.nesting := Nat.mul_pos (Nat.succ_pos _) (Nat.succ_pos _)
  obtain ⟨n, hn⟩ := Nat.exists_eq_add_one_of_ne_zero (Nat.ne_of_gt hpos)
  rw [Query.answer, Query.reading, Heap.display, hn, hs]
  rfl

namespace Expr

open Eval Program

variable {S : Signature} {env : Environment S} {h : Heap}

lemma finds_property (hv : (h.fields o).get? n = some v) :
    (property (S := S) (.object o) n).run.Finds h (.ok v) := by
  have hanswer : (Query.property o n).answer h = some (some v, [.property o n]) := by
    rw [← hv]
    rfl
  exact Finds.run_bind (Finds.run_lift (finds_read hanswer)) (.pure _)

lemma finds_access (hleft : (left.eval env).run.Finds h (.ok (.object o)))
    (hv : h.StoresAt v o ns) : ((access left ns).eval env).run.Finds h (.ok v) := by
  induction hv generalizing left with
  | here hv => exact Finds.run_bind hleft (finds_property hv)
  | inside hnext _ ih => exact ih (Finds.run_bind hleft (finds_property hnext))

lemma finds_name {scope : Scope} (hlocal : scope.local? n = none)
    (henv : env.lookup = scope.lookup) (hv : (h.fields scope.data).get? n = some v) :
    ((name n).eval env).run.Finds h (.ok v) := by
  have hanswer : (Query.property scope.data n).answer h =
      some (some v, [.property scope.data n]) := by
    rw [← hv]
    rfl
  have hlookup : (env.lookup n).Finds h (some v) := by
    rw [henv, Scope.lookup, hlocal]
    exact Finds.bind (finds_read hanswer) (.pure _)
  exact Finds.run_bind (Finds.run_lift hlookup) (.pure _)

/-- The words that stand for a value of their own. -/
def literalWords : List String :=
  ["true", "false", "null", "undefined"]

lemma wordExpr_of_not_literal (hn : n ∉ literalWords) : ExprParser.wordExpr n = .name n := by
  simp only [literalWords, mem_cons, not_mem_nil, or_false, not_or] at hn
  rw [ExprParser.wordExpr.eq_def]
  split <;> simp_all

lemma finds_path {scope : Scope} (hn : n ∉ literalWords) (hlocal : scope.local? n = none)
    (henv : env.lookup = scope.lookup) (hv : h.StoresAt v scope.data (n :: ns)) :
    ((access (ExprParser.wordExpr n) ns).eval env).run.Finds h (.ok v) := by
  rw [wordExpr_of_not_literal hn]
  cases hv with
  | here hv => exact finds_name hlocal henv hv
  | inside hnext hns => exact finds_access (finds_name hlocal henv hnext) hns

/-! ## Paths that start with a literal -/

/-- Absence and truth values. -/
inductive IsConstant : Value → Prop
  | undefined : IsConstant .undefined
  | null : IsConstant .null
  | bool (b : Bool) : IsConstant (.bool b)

/-- An expression that ends in the same way everywhere. -/
def IsFixed (e : Expr) : Prop :=
  ∃ r : Except EvalError Value, (∀ v, r = .ok v → IsConstant v) ∧
    ∀ {S : Signature} (env : Environment S) (h : Heap), (e.eval env).run.Finds h r

lemma IsFixed.of_ok (hv : IsConstant v)
    (h : ∀ {S : Signature} (env : Environment S) (h : Heap), (e.eval env).run.Finds h (.ok v)) :
    e.IsFixed := by
  refine ⟨.ok v, fun w hw => ?_, h⟩
  cases hw
  exact hv

lemma IsFixed.of_error (h : ∀ {S : Signature} (env : Environment S) (h : Heap), (e.eval
    env).run.Finds h (.error err)) : e.IsFixed :=
  ⟨.error err, nofun, h⟩

lemma IsFixed.member (he : e.IsFixed) (n : String) : (member e n).IsFixed := by
  obtain ⟨r, hr, hfinds⟩ := he
  have habsent {S : Signature} (env : Environment S) (h : Heap) {v : Value} {s : String}
      (hv : (e.eval env).run.Finds h (.ok v)) (hs : ∀ n, h.displayWithin (n + 1) [] v = pure s)
      (hproperty : property (S := S) v n = (do
        let shown ← display v
        throw (.value (.nullAccess shown n)))) :
      ((Expr.member e n).eval env).run.Finds h (.error (.value (.nullAccess s n))) := by
    refine Finds.run_bind hv ?_
    rw [hproperty]
    exact Finds.run_bind (Finds.run_lift (finds_read (Query.answer_display hs))) (.pure _)
  cases r with
  | error err => exact .of_error fun env h => Finds.run_bind_error (hfinds env h) _
  | ok v =>
    cases hr v rfl with
    | undefined | null =>
      exact .of_error fun env h => habsent env h (hfinds env h) (fun _ => rfl) rfl
    | bool b => exact .of_ok .undefined fun env h => Finds.run_bind (hfinds env h) (.pure _)

lemma IsFixed.access (he : e.IsFixed) (ns : List String) : (access e ns).IsFixed := by
  induction ns generalizing e with
  | nil => exact he
  | cons n ns ih => exact ih (he.member n)

lemma isFixed_of_literal (hn : n ∈ literalWords) : (ExprParser.wordExpr n).IsFixed := by
  simp only [literalWords, mem_cons, not_mem_nil, or_false] at hn
  rcases hn with rfl | rfl | rfl | rfl
  · exact .of_ok (.bool true) fun _ _ => .pure _
  · exact .of_ok (.bool false) fun _ _ => .pure _
  · exact .of_ok .null fun _ _ => .pure _
  · exact .of_ok .undefined fun _ _ => .pure _

end Expr

end LiveMarkup
