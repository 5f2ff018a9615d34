import LiveMarkup.Proofs.Recognition

/-!
# Reserved words as names

`true`, `false`, `null`, `undefined` and `typeof` are no names where an expression is expected, but
every word may be the key of an entry, and an entry without a value takes its key for a name. So the
reserved words that are looked up as variables are those of such entries, one for one.
-/

namespace LiveMarkup

open Grammar ExprToken

namespace Expr

mutual

/-- What `name` gives at the names of an expression and `entry` at the entries of its objects. -/
def gather (name : String → List String) (entry : String → Expr → List String) :
    Expr → List String
  | .undefined | .null | .bool _ | .number _ | .text _ => []
  | .name n => name n
  | .list items => gatherAll name entry items
  | .object entries => gatherEntries name entry entries
  | .member e _ | .unary _ e => e.gather name entry
  | .index a b | .binary _ a b | .logical _ a b => a.gather name entry ++ b.gather name entry
  | .call callee args => callee.gather name entry ++ gatherAll name entry args
  | .conditional test yes no =>
    test.gather name entry ++ (yes.gather name entry ++ no.gather name entry)

def gatherAll (name : String → List String) (entry : String → Expr → List String) :
    List Expr → List String
  | [] => []
  | e :: rest => e.gather name entry ++ gatherAll name entry rest

def gatherEntries (name : String → List String) (entry : String → Expr → List String) :
    List (String × Expr) → List String
  | [] => []
  | (key, e) :: rest => entry key e ++ (e.gather name entry ++ gatherEntries name entry rest)

end

def identifiers : Expr → List String :=
  gather (fun n => [n]) fun _ _ => []

/-- The key of an entry whose value is the variable of that name. -/
def shorthand (key : String) : Expr → List String
  | .name n => if n = key then [key] else []
  | _ => []

/-- The names of the entries that take their keys for names. -/
def shorthands : Expr → List String :=
  gather (fun _ => []) shorthand

variable {source w : String} {e : Expr}

/-- An entry whose value is written out counts for nothing, because the value is no reserved word.
-/
lemma count_shorthand (key : String) (h : e.identifiers.count w = e.shorthands.count w) :
    (shorthand key e).count w = 0 := by
  cases e with
  | name n =>
    have hne : n ≠ w := by
      rintro rfl
      simp [identifiers, shorthands, gather] at h
    rw [shorthand]
    split
    next heq => simp [← heq, hne]
    next => rfl
  | _ => rfl

end Expr

def Grammar.Phrase.gather (name : String → List String) (entry : String → Expr → List String) :
    (φ : Phrase) → φ.Tree → List String
  | .expression _, e => Expr.gather name entry e
  | .items, es => Expr.gatherAll name entry es
  | .entries, es => Expr.gatherEntries name entry es
  | .entry, (key, e) => entry key e ++ Expr.gather name entry e

variable {source w : String} {ts : List ExprToken} {e : Expr}

/-- In whatever the grammar derives, a reserved word is a name as often as it is a key without a
value. -/
lemma Grammar.Derives.count_reserved (hw : w ∈ reserved) (h : Derives φ ts x) :
    (φ.gather (fun n => [n]) (fun _ _ => []) x).count w =
      (φ.gather (fun _ => []) Expr.shorthand x).count w := by
  induction h with
  | loosen _ ih | parens _ ih | apply _ _ ih | member _ _ ih | list _ ih | object _ ih => exact ih
  | noItems | noEntries => rfl
  | lastItem _ ih | lastEntry _ ih =>
    simpa [Phrase.gather, Expr.gatherAll, Expr.gatherEntries] using ih
  | conditional _ _ _ htest hyes hno =>
    simp only [Phrase.gather, Expr.gather, List.count_append] at htest hyes hno ⊢
    rw [htest, hyes, hno]
  | join op _ _ hleft hright =>
    simp only [Phrase.gather] at hleft hright ⊢
    cases op <;> simp only [Expr.gather, List.count_append, hleft, hright]
  | index _ _ hleft hright | call _ _ hleft hright | moreItems _ _ hleft hright
  | moreEntries _ _ hleft hright =>
    simp only [Phrase.gather, Expr.gather, Expr.gatherAll, Expr.gatherEntries, List.count_append]
      at hleft hright ⊢
    omega
  | token h =>
    cases h with
    | @name n free =>
      have hne : n ≠ w := by
        rintro rfl
        exact free hw
      simp [Phrase.gather, Expr.gather, hne]
    | _ => rfl
  | @keyed t key ts e _ _ ih =>
    simpa [Phrase.gather, Expr.count_shorthand key ih] using ih
  | shorthand n => simp [Phrase.gather, Expr.gather, Expr.shorthand]

namespace Expr

/-- An expression that was read names a reserved word as a variable as often as it has an entry that
takes this word, its key, for a name. So reserved words are no variables exactly where no entry does
that. -/
theorem parse_reserved_iff_shorthand (h : parse source = .ok e) :
    (∀ w ∈ reserved, e.identifiers.count w = e.shorthands.count w) ∧
      ((∀ w ∈ reserved, w ∉ e.identifiers) ↔ ∀ w ∈ reserved, w ∉ e.shorthands) := by
  have hcount : ∀ w ∈ reserved, e.identifiers.count w = e.shorthands.count w := by
    intro w hw
    obtain ⟨ts, -, hreads⟩ := exists_tokens_of_parse h
    exact (ExprParser.reads_all_iff.mp hreads).count_reserved hw
  refine ⟨hcount, forall₂_congr fun w hw => ?_⟩
  rw [← List.count_eq_zero, ← List.count_eq_zero, hcount w hw]

lemma parse_braces (hsource : source = spaced [.punct .braceOpen, .name w, .punct .braceClose])
    (hw : isName w = true) : parse source = .ok (.object [(w, .name w)]) := by
  have hlegible : ∀ t ∈ [punct .braceOpen, .name w, .punct .braceClose], t.Legible := by
    simp [hw, Legible]
  have htokens := tokenize_spaced hlegible
  have hderives := (Derives.object (.lastEntry (.shorthand w))).loosest
  rw [hsource, parse_eq_ok_iff htokens]
  exact ExprParser.reads_all_iff.mpr hderives

theorem parse_reserved_iff_shorthand_typeof :
    parse "\x7b typeof \x7d" = .ok (.object [("typeof", .name "typeof")]) ∧
      (Expr.object [("typeof", .name "typeof")]).identifiers.count "typeof" = 1 := by
  have hparse : parse "\x7b typeof \x7d" = .ok (.object [("typeof", .name "typeof")]) :=
    parse_braces (by decide) (by decide)
  exact ⟨hparse, (parse_reserved_iff_shorthand hparse).1 "typeof" (by decide)⟩

theorem parse_braces_true :
    "true" ∈ reserved ∧
      ∃ e, parse "\x7b true \x7d" = .ok e ∧ "true" ∈ e.identifiers :=
  ⟨by decide, _, parse_braces (w := "true") (by decide) (by decide), by decide⟩

end Expr

end LiveMarkup
