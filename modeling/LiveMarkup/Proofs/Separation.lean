import Mathlib.Data.List.TakeWhile
import LiveMarkup.Proofs.Recognition
import LiveMarkup.Template.Arguments

/-!
# Arguments end where expressions end

Expressions that are joined with commas are cut apart again at just these commas. The scan for
arguments and the lexer know nothing of each other, but of an expression the scan sees only the
marks: a name, a number or a blank leaves it where it is, and it is behind a quoted text where the
lexer is. In the marks of what the grammar derives every bracket is closed, and every comma is
inside brackets.
-/

namespace LiveMarkup

open List Option Text
open Bool (or_eq_true)
open Nat (zero_le)

variable {c : Char} {cs rest : List Char} {d d' : Nat} {p : Punct} {ts : List ExprToken}

open Number (isNumberChar)

namespace Arguments

/-! ## Characters that do not separate -/

/-- The state behind a character, unless that separates arguments. -/
def State.pass? (s : State) (c : Char) : Option State :=
  if s.separates c then none else some (s.after c)

/-- The state behind characters none of which separates arguments. -/
def State.through (s : State) (cs : List Char) : Option State :=
  cs.foldlM State.pass? s

namespace State

variable {s s' : State}

@[simp]
lemma through_nil (s : State) : s.through [] = some s := rfl

lemma through_cons (s : State) : s.through (c :: cs) = (s.pass? c).bind (·.through cs) := rfl

lemma through_append (s : State) (cs rest : List Char) :
    s.through (cs ++ rest) = (s.through cs).bind (·.through rest) :=
  foldlM_append

lemma pieces_append (h : s.through cs = some s') (hrest : pieces s' rest = piece :: more) :
    pieces s (cs ++ rest) = (cs ++ piece) :: more := by
  induction cs generalizing s with
  | nil =>
    cases h
    exact hrest
  | cons c cs ih =>
    rw [through_cons, pass?] at h
    split at h
    · cases h
    next hsep => rw [cons_append, pieces, if_neg hsep, ih h, cons_append]

end State

/-- The characters that the scan takes notice of outside quotes. -/
def special : List Char :=
  ['\'', '"', '`', '(', '[', '\x7b', ')', ']', '\x7d', ',']

lemma special_apart : (special.all fun c =>
    !(isBlank c || isNumberChar c || ExprToken.isNameRest c)) = true := by
  decide

lemma not_special (h : (isBlank c || isNumberChar c || ExprToken.isNameRest c) = true) :
    c ∉ special := by
  intro hmem
  have hapart := all_eq_true.mp special_apart c hmem
  simp [h] at hapart

lemma State.through_plain (h : ∀ c ∈ cs, c ∉ special) :
    (outside d).through cs = some (outside d) := by
  induction cs with
  | nil => rfl
  | cons c cs ih =>
    obtain ⟨hc, hcs⟩ := forall_mem_cons.mp h
    simp only [special, mem_cons, not_mem_nil, or_false, not_or] at hc
    have hpass : (outside d).pass? c = some (outside d) := by
      cases d <;> simp [pass?, separates, after, hc]
    rw [through_cons, hpass]
    exact ih hcs

end Arguments

open Arguments State

/-! ## What the scan sees of tokens -/

def ExprToken.marks (ts : List ExprToken) : List Char :=
  ts.flatMap fun
    | .punct p => p.text.toList
    | _ => []

namespace ExprToken

lemma marks_append (ts ts' : List ExprToken) : marks (ts ++ ts') = marks ts ++ marks ts' :=
  flatMap_append

lemma marks_punct (p : Punct) (ts : List ExprToken) :
    marks (.punct p :: ts) = p.text.toList ++ marks ts :=
  rfl

lemma outside_of_through_text (h : (outside d).through p.text.toList = some s) :
    ∃ d', s = outside d' := by
  cases p <;> cases d <;> cases h <;> exact ⟨_, rfl⟩

lemma splitNumber_spec (seenExp : Bool) (before : Char) (cs : List Char) :
    (splitNumber seenExp before cs).1 ++ (splitNumber seenExp before cs).2 = cs ∧
      ∀ c ∈ (splitNumber seenExp before cs).1, isNumberChar c = true := by
  induction cs generalizing seenExp before with
  | nil => exact ⟨rfl, forall_mem_nil _⟩
  | cons c cs ih =>
    rw [splitNumber]
    split
    next hdigit =>
      refine ⟨congrArg (c :: ·) (ih ..).1, forall_mem_cons.mpr ⟨?_, (ih ..).2⟩⟩
      simp only [or_eq_true, Bool.and_eq_true] at hdigit
      simp only [isNumberChar, or_eq_true]
      grind
    · split
      next hexp =>
        refine ⟨congrArg (c :: ·) (ih ..).1, forall_mem_cons.mpr ⟨?_, (ih ..).2⟩⟩
        simp only [or_eq_true, Bool.and_eq_true] at hexp
        simp only [isNumberChar, or_eq_true]
        grind
      · exact ⟨rfl, forall_mem_nil _⟩

lemma through_splitText (h : splitText q cs = some r) :
    ∃ front, cs = front ++ r.2 ∧
      ∀ d, (State.quoted q false d).through front = some (outside d) := by
  fun_induction splitText q cs generalizing r with
  | case1 | case2 => cases h
  | case3 c cs ih =>
    obtain ⟨u, hu, rfl⟩ := map_eq_some_iff.mp h
    obtain ⟨front, rfl, hfront⟩ := ih hu
    exact ⟨'\\' :: c :: front, rfl, hfront⟩
  | case4 c cs hlast hmore hc =>
    cases h
    have hslash : c ≠ '\\' := by
      rintro rfl
      cases cs with
      | nil => exact hlast rfl rfl
      | cons c' cs => exact hmore c' cs rfl rfl
    refine ⟨[c], rfl, fun d => ?_⟩
    simp [through_cons, pass?, separates, State.after, hslash, hc]
  | case5 c cs hlast hmore hc ih =>
    obtain ⟨u, hu, rfl⟩ := map_eq_some_iff.mp h
    obtain ⟨front, rfl, hfront⟩ := ih hu
    have hslash : c ≠ '\\' := by
      rintro rfl
      cases hcs : front ++ u.2 with
      | nil => exact hlast rfl hcs
      | cons c' cs => exact hmore c' cs rfl hcs
    refine ⟨c :: front, rfl, fun d => ?_⟩
    have hstay : (State.quoted q false d).pass? c = some (State.quoted q false d) := by
      simp [pass?, separates, State.after, hslash, hc]
    rw [through_cons, hstay]
    exact hfront d

variable {total : Nat}

/-- One step of the lexer: of the characters it uses up, the scan sees the marks. -/
lemma through_next (h : next total c cs = .ok (t, rest)) :
    ∃ front, c :: cs = front ++ rest ∧
      ∀ d, (outside d).through front = (outside d).through (marks t.toList) := by
  have hplain {front : List Char} (hchars : ∀ c ∈ front,
      (isBlank c || isNumberChar c || isNameRest c) = true) (d : Nat) :
      (outside d).through front = some (outside d) :=
    through_plain fun c hc => not_special (hchars c hc)
  unfold next at h
  split at h
  next hblank =>
    cases h
    exact ⟨[c], rfl, hplain (by simp [hblank])⟩
  split at h
  next hnumber =>
    dsimp only at h
    split at h
    next x _ =>
      cases h
      obtain ⟨hsplit, hchars⟩ := splitNumber_spec false c cs
      have hc : isNumberChar c = true := by
        simp only [or_eq_true, Bool.and_eq_true] at hnumber
        simp only [isNumberChar, or_eq_true]
        grind
      refine ⟨c :: (splitNumber false c cs).1, congrArg (c :: ·) hsplit.symm, hplain ?_⟩
      exact forall_mem_cons.mpr ⟨by simp [hc], fun c' hc' => by simp [hchars c' hc']⟩
    · cases h
  split at h
  next hquote =>
    split at h
    next r hr =>
      cases h
      obtain ⟨front, rfl, hfront⟩ := through_splitText hr
      refine ⟨c :: front, rfl, fun d => ?_⟩
      have hopen : (outside d).pass? c = some (State.quoted c false d) := by
        simp only [or_eq_true, beq_iff_eq] at hquote
        rcases hquote with (rfl | rfl) | rfl <;> cases d <;> rfl
      rw [through_cons, hopen]
      exact hfront d
    · cases h
  split at h
  next hname =>
    cases h
    refine ⟨c :: cs.takeWhile isNameRest, by simp, hplain ?_⟩
    refine forall_mem_cons.mpr ⟨?_, fun c' hc' => by simp [mem_takeWhile_imp hc']⟩
    simp only [isNameStart, or_eq_true] at hname
    simp only [isNameRest, isAlphanumeric, or_eq_true]
    grind
  · split at h
    next p hp =>
      cases h
      have hstart : p.text.toList.isPrefixOf (c :: cs) = true :=
        find?_some (p := fun p : Punct => p.text.toList.isPrefixOf (c :: cs)) hp
      obtain ⟨tail, htail⟩ := isPrefixOf_iff_prefix.mp hstart
      have hdrop : cs.drop (p.text.length - 1) = tail := by
        have hlen : 0 < p.text.length := by cases p <;> decide
        calc cs.drop (p.text.length - 1) = (c :: cs).drop (p.text.length - 1 + 1) := rfl
          _ = (p.text.toList ++ tail).drop p.text.toList.length := by
            rw [Nat.sub_add_cancel hlen, htail, String.length_toList]
          _ = tail := drop_left
      rw [hdrop]
      exact ⟨p.text.toList, htail.symm, fun d => by simp [marks]⟩
    · cases h

lemma scan_cons_ok (h : scan total (c :: cs) = .ok ts) :
    ∃ t rest ts', next total c cs = .ok (t, rest) ∧ scan total rest = .ok ts' ∧
      ts = t.toList ++ ts' := by
  rw [scan.eq_def] at h
  dsimp only at h
  split at h
  · cases h
  next r hr =>
    split at h
    · cases h
    next ts' hts' =>
      cases h
      exact ⟨r.1, r.2, ts', hr, hts', rfl⟩

lemma through_scan (h : scan total cs = .ok ts) (d : Nat) :
    (outside d).through cs = (outside d).through (marks ts) := by
  induction hn : cs.length using Nat.strongRecOn generalizing cs ts d with
  | _ n ih =>
    cases cs with
    | nil =>
      rw [scan_nil] at h
      cases h
      rfl
    | cons c cs =>
      obtain ⟨t, rest, ts', hnext, hrest, rfl⟩ := scan_cons_ok h
      obtain ⟨front, hfront, hsees⟩ := through_next hnext
      have hshort : rest.length < n := hn ▸ Nat.lt_succ_of_le (next_length hnext)
      rw [hfront, through_append, marks_append, through_append, hsees]
      -- Behind a mark the scan is outside quotes again, and the rest is as short as the lexer says.
      match t with
      | some (.punct p) =>
        cases hp : (outside d).through (marks (some (.punct p)).toList) with
        | none => rfl
        | some s =>
          obtain ⟨d', rfl⟩ := outside_of_through_text
            (show (outside d).through p.text.toList = some s by simpa [marks] using hp)
          exact ih _ hshort hrest d' rfl
      | none | some (.number _) | some (.text _) | some (.name _) => exact ih _ hshort hrest d rfl

end ExprToken

/-! ## Brackets are closed -/

namespace Grammar

open ExprToken

/-- How deep in brackets a phrase stands at least. -/
def Phrase.floor : Phrase → Nat
  | .items | .entries => 1
  | .expression _ | .entry => 0

lemma Joins.through_text (h : Joins l p f) (d : Nat) :
    (outside d).through p.text.toList = some (outside d) := by
  cases h <;> cases d <;> rfl

lemma through_bracketed (h : (opening, closing) ∈ [(.parenOpen, .parenClose), (.bracketOpen,
    .bracketClose), (.braceOpen, .braceClose)])
    (hts : (outside (d + 1)).through (marks ts) = some (outside (d + 1))) :
    (outside d).through (marks (.punct opening :: (ts ++ [.punct closing]))) =
      some (outside d) := by
  have hopen : (outside d).through opening.text.toList = some (outside (d + 1)) := by
    simp only [mem_cons, Prod.mk.injEq, not_mem_nil, or_false] at h
    rcases h with ⟨rfl, -⟩ | ⟨rfl, -⟩ | ⟨rfl, -⟩ <;> cases d <;> rfl
  have hclose : (outside (d + 1)).through closing.text.toList = some (outside d) := by
    simp only [mem_cons, Prod.mk.injEq, not_mem_nil, or_false] at h
    rcases h with ⟨-, rfl⟩ | ⟨-, rfl⟩ | ⟨-, rfl⟩ <;> rfl
  rw [marks_punct, through_append, hopen, bind_some, marks_append, through_append, hts,
    bind_some, marks_punct, through_append, hclose]
  rfl

lemma through_behind (hp : (outside d).through p.text.toList = some (outside d))
    (hts : (outside d).through (marks ts) = some (outside d)) :
    (outside d).through (marks (.punct p :: ts)) = some (outside d) := by
  rw [marks_punct, through_append, hp, bind_some, hts]

lemma through_between (hts : (outside d).through (marks ts) = some (outside d))
    (hp : (outside d).through p.text.toList = some (outside d))
    (hts' : (outside d).through (marks ts') = some (outside d)) :
    (outside d).through (marks (ts ++ .punct p :: ts')) = some (outside d) := by
  rw [marks_append, through_append, hts, bind_some, through_behind hp hts']

/-- The scan passes what the grammar derives, and is as deep in brackets behind it as before. -/
lemma Derives.through (h : Derives φ ts x) (hd : φ.floor ≤ d) :
    (outside d).through (marks ts) = some (outside d) := by
  have hcomma {d : Nat} (hd : 1 ≤ d) :
      (outside d).through (Punct.text .comma).toList = some (outside d) := by
    obtain ⟨d, rfl⟩ := Nat.exists_eq_add_of_le' hd
    rfl
  have hneutral (d : Nat) (p : Punct)
      (hp : p ∈ [Punct.question, .colon, .dot, .bang, .minus, .plus]) :
      (outside d).through p.text.toList = some (outside d) := by
    simp only [mem_cons, not_mem_nil, or_false] at hp
    rcases hp with rfl | rfl | rfl | rfl | rfl | rfl <;> cases d <;> rfl
  induction h generalizing d with
  | loosen _ ih | lastItem _ ih | lastEntry _ ih => exact ih (zero_le d)
  | conditional _ _ _ htest hyes hno =>
    exact through_between (htest (zero_le d)) (hneutral d _ (by decide))
      (through_between (hyes (zero_le d)) (hneutral d _ (by decide)) (hno (zero_le d)))
  | join op _ _ hleft hright =>
    exact through_between (hleft (zero_le d)) (op.through_text d) (hright (zero_le d))
  | apply hop _ ih =>
    cases hop with
    | typeof => exact ih (zero_le d)
    | not | negate | plus =>
      exact through_behind (hneutral d _ (by decide)) (ih (zero_le d))
  | member n _ ih => exact through_between (ih (zero_le d)) (hneutral d _ (by decide)) rfl
  | index _ _ hleft hkey =>
    rw [marks_append, through_append, hleft (zero_le d)]
    exact through_bracketed (by decide) (hkey (zero_le _))
  | call _ _ hleft hargs =>
    rw [marks_append, through_append, hleft (zero_le d)]
    exact through_bracketed (by decide) (hargs (Nat.le_add_left 1 d))
  | token h => cases h <;> rfl
  | parens _ ih => exact through_bracketed (by decide) (ih (zero_le _))
  | list _ ih | object _ ih => exact through_bracketed (by decide) (ih (Nat.le_add_left 1 d))
  | noItems => rfl
  | moreItems _ _ hitem hrest =>
    exact through_between (hitem (zero_le d)) (hcomma hd) (hrest hd)
  | noEntries => rfl
  | moreEntries _ _ hentry hrest =>
    exact through_between (hentry (zero_le d)) (hcomma hd) (hrest hd)
  | keyed hkey _ ih =>
    cases hkey <;> exact through_behind (hneutral d _ (by decide)) (ih (zero_le d))
  | shorthand n => rfl

end Grammar

/-! ## Joined expressions -/

namespace Arguments

variable {source : String}

lemma through_of_parse (h : Expr.parse source = .ok e) :
    (outside 0).through source.toList = some (outside 0) := by
  obtain ⟨ts, htokens, hreads⟩ := Expr.exists_tokens_of_parse h
  rw [ExprToken.through_scan htokens]
  exact (ExprParser.reads_all_iff.mp hreads).through (Nat.le_refl 0)

lemma blank_of_trimChars (h : trimChars cs = []) : ∀ c ∈ cs, isBlank c = true := by
  have htail : ∀ c ∈ trimStart cs, isBlank c = true := by
    have hdrop := reverse_eq_nil_iff.mp h
    simpa [dropWhile_eq_nil_iff] using hdrop
  intro c hc
  rw [← takeWhile_append_dropWhile (p := isBlank) (l := cs)] at hc
  rcases mem_append.mp hc with hc | hc
  · exact mem_takeWhile_imp hc
  · exact htail c hc

lemma scan_blanks (h : ∀ c ∈ cs, isBlank c = true) : ExprToken.scan total cs = .ok [] := by
  induction cs with
  | nil => exact ExprToken.scan_nil total
  | cons c cs ih =>
    obtain ⟨hc, hcs⟩ := forall_mem_cons.mp h
    exact ExprToken.scan_cons (t := none) (by rw [ExprToken.next, if_pos hc]) (ih hcs)

lemma not_blank_of_parse (h : Expr.parse source = .ok e) :
    ∃ c ∈ source.toList, isBlank c = false := by
  refine Classical.byContradiction fun hblank => ?_
  have hall : ∀ c ∈ source.toList, isBlank c = true := by simpa using hblank
  rw [Expr.parse, ExprToken.tokenize, scan_blanks hall] at h
  cases h

lemma pieces_joined (hne : sources ≠ [])
    (h : ∀ s ∈ sources, (outside 0).through s.toList = some (outside 0)) :
    pieces (.outside 0) (",".intercalate sources).toList = sources.map String.toList := by
  match sources with
  | [s] =>
    rw [forall_mem_singleton] at h
    have hpieces : pieces (.outside 0) (s.toList ++ []) = [s.toList ++ []] := pieces_append h rfl
    simpa using hpieces
  | s :: s' :: rest =>
    obtain ⟨hs, hrest⟩ := forall_mem_cons.mp h
    have hmore : pieces (.outside 0) (',' :: (",".intercalate (s' :: rest)).toList) =
        [] :: (s' :: rest).map String.toList :=
      congrArg ([] :: ·) (pieces_joined (cons_ne_nil _ _) hrest)
    have hpieces := pieces_append hs hmore
    rw [append_nil] at hpieces
    simpa [String.intercalate_cons_cons] using hpieces

/-- Expressions that are joined with commas are split into these expressions again, without the
blanks around them. -/
theorem split_joined_expressions {sources : List String} (hne : sources ≠ [])
    (h : ∀ s ∈ sources, ∃ e, Expr.parse s = .ok e) :
    split (",".intercalate sources) = sources.map Text.trim := by
  have hpieces := pieces_joined hne fun s hs =>
    have ⟨_, he⟩ := h s hs
    through_of_parse he
  have hfull : trimChars (",".intercalate sources).toList ≠ [] := by
    intro hblank
    obtain ⟨s, rest, rfl⟩ := exists_cons_of_ne_nil hne
    obtain ⟨e, he⟩ := h s mem_cons_self
    obtain ⟨c, hc, hne⟩ := not_blank_of_parse he
    have hmem : c ∈ (",".intercalate (s :: rest)).toList := by
      cases rest with
      | nil => simpa using hc
      | cons s' rest => simp [String.intercalate_cons_cons, hc]
    simp [blank_of_trimChars hblank c hmem] at hne
  rw [split, if_neg (by simpa using hfull), hpieces, List.map_map]
  rfl

/-- A comma in a quoted text or between the arguments of a call separates nothing. -/
theorem split_joined_expressions_nested :
    (∃ e, Expr.parse "f ( a , \"b,c\" )" = .ok e) ∧ (∃ e, Expr.parse " d" = .ok e) ∧
      split "f ( a , \"b,c\" ), d" = ["f ( a , \"b,c\" )", "d"] := by
  have hcall : ∃ e, Expr.parse "f ( a , \"b,c\" )" = .ok e := by
    have htokens : ExprToken.tokenize "f ( a , \"b,c\" )" = .ok [.name "f", .punct .parenOpen,
        .name "a", .punct .comma, .text "b,c", .punct .parenClose] := by
      have hspaced : "f ( a , \"b,c\" )" = ExprToken.spaced [.name "f", .punct .parenOpen,
        .name "a", .punct .comma, .text "b,c", .punct .parenClose] := by decide
      rw [hspaced, ExprToken.tokenize_spaced (by decide)]
    have hname (n : String) (hn : n ∉ Grammar.reserved) : Grammar.Derives (.expression .primary)
        [.name n] (.name n) := .token (.name hn)
    have hargs : Grammar.Derives .items [.name "a", .punct .comma, .text "b,c"]
        [.name "a", .text "b,c"] :=
      .moreItems (hname "a" (by decide)).loosest
        (.lastItem (Grammar.Derives.token (.text _)).loosest)
    exact ⟨_, (Expr.parse_eq_ok_iff htokens).mpr (ExprParser.reads_all_iff.mpr
      (Grammar.Derives.call (.loosen (hname "f" (by decide))) hargs).loosest)⟩
  have hname : ∃ e, Expr.parse " d" = .ok e := by
    have htokens : ExprToken.tokenize " d" = .ok [.name "d"] :=
      ExprToken.scan_blank (ExprToken.scan_append (ExprToken.lexesTo_name (n := "d") (by decide))
        ExprToken.breaks_nil (ExprToken.scan_nil _))
    exact ⟨_, (Expr.parse_eq_ok_iff htokens).mpr (ExprParser.reads_all_iff.mpr
      (Grammar.Derives.token (.name (by decide))).loosest)⟩
  refine ⟨hcall, hname, ?_⟩
  have hsplit : split (",".intercalate ["f ( a , \"b,c\" )", " d"]) = _ :=
    split_joined_expressions (by decide) (by simp [hcall, hname])
  exact hsplit.trans (by decide)

end Arguments

end LiveMarkup
