import LiveMarkup.Proofs.Recognition

/-!
# Printed expressions are read back

An expression is printed as its tokens with a blank between any two. Parentheses stand around an
operand exactly when its own tier is looser than the tier that the grammar asks for in its place.

The tokens derive the expression they were printed from, by induction on the expression, so reading
them gives it back. No tokens that derive the expression have fewer parentheses, by induction on
their derivation.
-/

namespace LiveMarkup

open List ExprToken
open List (forall_mem_append forall_mem_cons)

variable {ts : List ExprToken}

open Grammar

/-! ## Printing -/

def BinaryOp.mark : BinaryOp → Punct
  | .add => .plus
  | .subtract => .minus
  | .multiply => .star
  | .divide => .slash
  | .remainder => .percent
  | .less => .less
  | .lessEqual => .lessEqual
  | .greater => .greater
  | .greaterEqual => .greaterEqual
  | .looseEqual => .looseEqual
  | .looseNotEqual => .looseNotEqual
  | .strictEqual => .strictEqual
  | .strictNotEqual => .strictNotEqual

def BinaryOp.tier : BinaryOp → Tier
  | .add | .subtract => .additive
  | .multiply | .divide | .remainder => .multiplicative
  | .less | .lessEqual | .greater | .greaterEqual => .relational
  | .looseEqual | .looseNotEqual | .strictEqual | .strictNotEqual => .equality

def LogicalOp.mark : LogicalOp → Punct
  | .and => .andAnd
  | .or => .orOr
  | .nullish => .nullish

def LogicalOp.tier : LogicalOp → Tier
  | .and => .conjunction
  | .or => .disjunction
  | .nullish => .nullish

def UnaryOp.token : UnaryOp → ExprToken
  | .not => .punct .bang
  | .negate => .punct .minus
  | .plus => .punct .plus
  | .typeof => .name "typeof"

namespace Expr

/-- The tightest tier of the grammar that has an expression without parentheses around it. -/
def tier : Expr → Tier
  | .conditional .. => .conditional
  | .logical op .. => op.tier
  | .binary op .. => op.tier
  | .unary .. => .unary
  | .member .. | .index .. | .call .. => .access
  | _ => .primary

/-- The tokens of an expression of tier `own` where one of tier `need` is expected. -/
def within (need own : Tier) (ts : List ExprToken) : List ExprToken :=
  if own.rank < need.rank then .punct .parenOpen :: (ts ++ [.punct .parenClose]) else ts

mutual

def tokens : Expr → List ExprToken
  | .undefined => [.name "undefined"]
  | .null => [.name "null"]
  | .bool true => [.name "true"]
  | .bool false => [.name "false"]
  | .number x => [.number x]
  | .text s => [.text s]
  | .name n => [.name n]
  | .list items => .punct .bracketOpen :: (itemTokens items ++ [.punct .bracketClose])
  | .object entries => .punct .braceOpen :: (entryTokens entries ++ [.punct .braceClose])
  | .member target n => within .access target.tier target.tokens ++ [.punct .dot, .name n]
  | .index target key =>
    within .access target.tier target.tokens ++
      .punct .bracketOpen :: (key.tokens ++ [.punct .bracketClose])
  | .call callee args =>
    within .access callee.tier callee.tokens ++
      .punct .parenOpen :: (itemTokens args ++ [.punct .parenClose])
  | .unary op operand => op.token :: within .unary operand.tier operand.tokens
  | .binary op left right =>
    within op.tier left.tier left.tokens ++
      .punct op.mark :: within op.tier.tighter right.tier right.tokens
  | .logical op left right =>
    within op.tier left.tier left.tokens ++
      .punct op.mark :: within op.tier.tighter right.tier right.tokens
  | .conditional test yes no =>
    within .nullish test.tier test.tokens ++
      .punct .question :: (yes.tokens ++ .punct .colon :: no.tokens)

def itemTokens : List Expr → List ExprToken
  | [] => []
  | e :: rest => e.tokens ++ if rest.isEmpty then [] else .punct .comma :: itemTokens rest

/-- The tokens of the entries of an object, with commas between them. Keys are texts. -/
def entryTokens : List (String × Expr) → List ExprToken
  | [] => []
  | (key, e) :: rest =>
    .text key :: .punct .colon ::
      (e.tokens ++ if rest.isEmpty then [] else .punct .comma :: entryTokens rest)

end

def print (e : Expr) : String :=
  spaced e.tokens

mutual

/-- Expressions that a text can stand for: names are names and not reserved, properties are names,
and numbers are read back from what is written for them. -/
def Printable : Expr → Prop
  | .undefined | .null | .bool _ | .text _ => True
  | .number x => (ExprToken.number x).Legible
  | .name n => isName n = true ∧ n ∉ reserved
  | .list items => AllPrintable items
  | .object entries => EntriesPrintable entries
  | .member target n => target.Printable ∧ isName n = true
  | .index target key => target.Printable ∧ key.Printable
  | .call callee args => callee.Printable ∧ AllPrintable args
  | .unary _ operand => operand.Printable
  | .binary _ left right => left.Printable ∧ right.Printable
  | .logical _ left right => left.Printable ∧ right.Printable
  | .conditional test yes no => test.Printable ∧ yes.Printable ∧ no.Printable

def AllPrintable : List Expr → Prop
  | [] => True
  | e :: rest => e.Printable ∧ AllPrintable rest

def EntriesPrintable : List (String × Expr) → Prop
  | [] => True
  | (_, e) :: rest => e.Printable ∧ EntriesPrintable rest

end

/-! ## The tokens derive the expression -/

lemma joins_binary (op : BinaryOp) : Joins op.tier op.mark (.binary op) := by
  cases op <;> constructor

lemma joins_logical (op : LogicalOp) : Joins op.tier op.mark (.logical op) := by
  cases op <;> constructor

lemma applies_token (op : UnaryOp) : Applies op.token op := by
  cases op <;> constructor

lemma derives_within (need : Tier) (h : Derives (.expression e.tier) ts e) :
    Derives (.expression need) (within need e.tier ts) e := by
  rw [within]
  split
  next =>
    have hneed : need.rank ≤ Tier.primary.rank := by cases need <;> decide
    exact (Derives.parens h.loosest).loosen_to hneed
  next hle => exact h.loosen_to (Nat.le_of_not_lt hle)

mutual

lemma derives_tokens (h : e.Printable) : Derives (.expression e.tier) e.tokens e := by
  match e with
  | .undefined => exact .token .undefined
  | .null => exact .token .null
  | .bool true => exact .token .yes
  | .bool false => exact .token .no
  | .number x => exact .token (.number x)
  | .text s => exact .token (.text s)
  | .name n => exact .token (.name h.2)
  | .list items => exact .list (derives_itemTokens h)
  | .object entries => exact .object (derives_entryTokens h)
  | .member target n => exact .member n (derives_within .access (derives_tokens h.1))
  | .index target key =>
    exact .index (derives_within .access (derives_tokens h.1)) (derives_tokens h.2).loosest
  | .call callee args =>
    exact .call (derives_within .access (derives_tokens h.1)) (derives_itemTokens h.2)
  | .unary op operand =>
    exact .apply (applies_token op) (derives_within .unary (derives_tokens h))
  | .binary op left right =>
    exact .join (joins_binary op) (derives_within op.tier (derives_tokens h.1))
      (derives_within op.tier.tighter (derives_tokens h.2))
  | .logical op left right =>
    exact .join (joins_logical op) (derives_within op.tier (derives_tokens h.1))
      (derives_within op.tier.tighter (derives_tokens h.2))
  | .conditional test yes no =>
    exact .conditional (derives_within .nullish (derives_tokens h.1)) (derives_tokens h.2.1).loosest
      (derives_tokens h.2.2).loosest

lemma derives_itemTokens (h : AllPrintable items) : Derives .items (itemTokens items) items := by
  match items with
  | [] => exact .noItems
  | [e] =>
    have he := (derives_tokens h.1).loosest
    simpa [itemTokens] using Derives.lastItem he
  | e :: e' :: rest =>
    have he := (derives_tokens h.1).loosest
    exact .moreItems he (derives_itemTokens h.2)

lemma derives_entryTokens (h : EntriesPrintable entries) :
    Derives .entries (entryTokens entries) entries := by
  match entries with
  | [] => exact .noEntries
  | [(key, e)] =>
    have he := (derives_tokens h.1).loosest
    simpa [entryTokens] using Derives.lastEntry (.keyed (.text key) he)
  | (key, e) :: entry :: rest =>
    have he := (derives_tokens h.1).loosest
    exact .moreEntries (.keyed (.text key) he) (derives_entryTokens h.2)

end

/-! ## The tokens can be written -/

lemma legible_within (need own : Tier) (h : ∀ t ∈ ts, t.Legible) :
    ∀ t ∈ within need own ts, t.Legible := by
  rw [within]
  split
  next =>
    simp only [forall_mem_cons, forall_mem_append]
    exact ⟨trivial, h, trivial, nofun⟩
  next => exact h

mutual

lemma legible_tokens {e : Expr} (h : e.Printable) : ∀ t ∈ e.tokens, t.Legible := by
  have hword : ∀ n ∈ reserved, (ExprToken.name n).Legible := by decide
  match e with
  | .undefined | .null | .bool true | .bool false =>
    simp only [tokens, forall_mem_cons]
    exact ⟨hword _ (by decide), nofun⟩
  | .text s =>
    simp only [tokens, forall_mem_cons]
    exact ⟨trivial, nofun⟩
  | .number x =>
    simp only [tokens, forall_mem_cons]
    exact ⟨h, nofun⟩
  | .name n =>
    simp only [tokens, forall_mem_cons]
    exact ⟨h.1, nofun⟩
  | .list items =>
    simp only [tokens, forall_mem_cons, forall_mem_append]
    exact ⟨trivial, legible_itemTokens h, trivial, nofun⟩
  | .object entries =>
    simp only [tokens, forall_mem_cons, forall_mem_append]
    exact ⟨trivial, legible_entryTokens h, trivial, nofun⟩
  | .member target n =>
    simp only [tokens, forall_mem_cons, forall_mem_append]
    exact ⟨legible_within _ _ (legible_tokens h.1), trivial, h.2, nofun⟩
  | .index target key =>
    simp only [tokens, forall_mem_cons, forall_mem_append]
    exact ⟨legible_within _ _ (legible_tokens h.1), trivial, legible_tokens h.2, trivial, nofun⟩
  | .call callee args =>
    simp only [tokens, forall_mem_cons, forall_mem_append]
    exact ⟨legible_within _ _ (legible_tokens h.1), trivial, legible_itemTokens h.2, trivial, nofun⟩
  | .unary op operand =>
    simp only [tokens, forall_mem_cons]
    have hop : op.token.Legible := by cases op <;> decide
    exact ⟨hop, legible_within _ _ (legible_tokens h)⟩
  | .binary op left right | .logical op left right =>
    simp only [tokens, forall_mem_cons, forall_mem_append]
    exact ⟨legible_within _ _ (legible_tokens h.1), trivial,
      legible_within _ _ (legible_tokens h.2)⟩
  | .conditional test yes no =>
    simp only [tokens, forall_mem_cons, forall_mem_append]
    exact ⟨legible_within _ _ (legible_tokens h.1), trivial, legible_tokens h.2.1, trivial,
      legible_tokens h.2.2⟩

lemma legible_itemTokens (h : AllPrintable items) : ∀ t ∈ itemTokens items, t.Legible := by
  match items with
  | [] => exact nofun
  | e :: rest =>
    have he := legible_tokens h.1
    have hrest := legible_itemTokens h.2
    simp only [itemTokens, forall_mem_append]
    refine ⟨he, ?_⟩
    split
    next => exact nofun
    next =>
      simp only [forall_mem_cons]
      exact ⟨trivial, hrest⟩

lemma legible_entryTokens (h : EntriesPrintable entries) :
    ∀ t ∈ entryTokens entries, t.Legible := by
  match entries with
  | [] => exact nofun
  | (key, e) :: rest =>
    have he := legible_tokens h.1
    have hrest := legible_entryTokens h.2
    simp only [entryTokens, forall_mem_cons, forall_mem_append]
    refine ⟨trivial, trivial, he, ?_⟩
    split
    next => exact nofun
    next =>
      simp only [forall_mem_cons]
      exact ⟨trivial, hrest⟩

end

lemma tokenize_print {e : Expr} (h : e.Printable) : tokenize e.print = .ok e.tokens :=
  tokenize_spaced (legible_tokens h)

/-! ## No parentheses are wasted -/

def opens : ExprToken → Bool
  | .punct .parenOpen => true
  | _ => false

def parens (ts : List ExprToken) : Nat :=
  ts.countP opens

@[simp] lemma parens_nil : parens [] = 0 := rfl

@[simp] lemma parens_append (ts ts' : List ExprToken) :
    parens (ts ++ ts') = parens ts + parens ts' :=
  countP_append

@[simp] lemma parens_cons (t : ExprToken) (ts : List ExprToken) :
    parens (t :: ts) = parens ts + if opens t then 1 else 0 :=
  countP_cons

@[simp] lemma within_conditional (own : Tier) (ts : List ExprToken) :
    within .conditional own ts = ts :=
  if_neg (Nat.not_lt_zero _)

@[simp] lemma within_self (l : Tier) (ts : List ExprToken) : within l l ts = ts :=
  if_neg (Nat.lt_irrefl _)

lemma parens_within_le (h : need.rank ≤ need'.rank) (own : Tier) (ts : List ExprToken) :
    parens (within need own ts) ≤ parens (within need' own ts) := by
  rw [within, within]
  split
  next hneed => simp only [if_pos (Nat.lt_of_lt_of_le hneed h), Nat.le_refl]
  next =>
    split
    next =>
      simp only [parens_cons, parens_append]
      omega
    next => exact Nat.le_refl _

def printed : (φ : Phrase) → φ.Tree → List ExprToken
  | .expression l, e => within l e.tier e.tokens
  | .items, items => itemTokens items
  | .entries, entries => entryTokens entries
  | .entry, (key, e) => .text key :: .punct .colon :: e.tokens

lemma printed_join (h : Joins l p f) (a b : Expr) :
    printed (.expression l) (f a b) =
        printed (.expression l) a ++ .punct p :: printed (.expression l.tighter) b ∧
      opens (.punct p) = false := by
  cases h <;> exact ⟨within_self .., rfl⟩

lemma parens_itemTokens_cons (e : Expr) (items : List Expr) :
    parens (itemTokens (e :: items)) = parens e.tokens + parens (itemTokens items) := by
  cases items <;> simp [itemTokens, opens]

lemma parens_entryTokens_cons (entry : String × Expr) (entries : List (String × Expr)) :
    parens (entryTokens (entry :: entries)) =
      parens (printed .entry entry) + parens (entryTokens entries) := by
  cases entries <;> simp [entryTokens, printed, opens]

/-- Nothing that derives a tree has fewer parentheses than what is printed for it. -/
lemma parens_printed_le (h : Derives φ ts x) : parens (printed φ x) ≤ parens ts := by
  induction h with
  | @loosen _ e l _ ih =>
    have hrank : l.rank ≤ l.tighter.rank := by cases l <;> decide
    exact Nat.le_trans (parens_within_le hrank e.tier e.tokens) ih
  | conditional _ _ _ htest hyes hno =>
    simp only [printed, tier, tokens, within_conditional, parens_append, parens_cons, opens] at *
    omega
  | @join l p f _ a _ b hop _ _ hleft hright =>
    obtain ⟨hprinted, hopens⟩ := printed_join hop a b
    rw [hprinted]
    simp only [parens_append, parens_cons, hopens]
    omega
  | @apply t op _ _ hop _ ih =>
    have htoken : op.token = t := by cases hop <;> rfl
    simp only [printed, tier, tokens, within_self, parens_cons, htoken] at *
    omega
  | member n _ ih =>
    simp only [printed, tier, tokens, within_self, parens_append] at *
    exact Nat.add_le_add_right ih _
  | index | call | list | object =>
    simp only [printed, tier, tokens, within_self, within_conditional, parens_append,
      parens_cons] at *
    omega
  | token h => cases h <;> exact Nat.zero_le _
  | @parens _ e _ ih =>
    -- a primary expression in parentheses may be one that needs none
    have hle : parens (within .primary e.tier e.tokens) ≤ parens e.tokens + 1 := by
      rw [within]
      split
      next => simp [opens]
      next => exact Nat.le_succ _
    simp only [printed, within_conditional, parens_append, parens_cons, opens, if_true] at *
    omega
  | noItems | noEntries | shorthand => exact Nat.zero_le _
  | lastItem _ ih =>
    rw [printed, parens_itemTokens_cons]
    simpa [printed, itemTokens] using ih
  | moreItems _ _ ih hrest =>
    simp only [printed, within_conditional, parens_itemTokens_cons, parens_append, parens_cons] at *
    omega
  | lastEntry _ ih =>
    rw [printed, parens_entryTokens_cons]
    simpa [entryTokens] using ih
  | moreEntries _ _ ih hrest =>
    rw [printed, parens_entryTokens_cons, parens_append, parens_cons]
    rw [printed] at hrest
    omega
  | keyed _ _ ih =>
    simp only [printed, within_conditional, parens_cons, opens, Bool.false_eq_true, if_false] at *
    omega

end Expr

/-- Printing an expression and reading the text gives the expression back, and no text that is read
as the expression has fewer parentheses. -/
theorem Expr.parse_print {e : Expr} (h : e.Printable) :
    Expr.parse e.print = .ok e ∧
    ∃ ts, ExprToken.tokenize e.print = .ok ts ∧
      ∀ source ts', ExprToken.tokenize source = .ok ts' → Expr.parse source = .ok e →
        Expr.parens ts ≤ Expr.parens ts' := by
  have htokens := tokenize_print h
  have hderives := (derives_tokens h).loosest
  refine ⟨(parse_eq_ok_iff htokens).mpr (ExprParser.reads_all_iff.mpr hderives), _, htokens, ?_⟩
  intro source ts' htokens' hparse
  have hspelled := ExprParser.reads_all_iff.mp ((parse_eq_ok_iff htokens').mp hparse)
  simpa [printed] using parens_printed_le hspelled

/-- An expression that needs parentheses on both sides of an operator and in front of an access,
with a reserved word for a property, a quote for a key and a backslash for a text. -/
def Expr.knot : Expr :=
  .binary .multiply
    (.binary .subtract (.name "a") (.binary .subtract (.name "b") (.number 1.5)))
    (.member (.unary .typeof (.object [("\"", .text "\\")])) "typeof")

theorem Expr.parse_print_knot :
    knot.Printable ∧
    knot.print = "( a - ( b - 1.5 ) ) * ( typeof \x7b \"\\\"\" : \"\\\\\" \x7d ) . typeof" ∧
    Expr.parse "( a - ( b - 1.5 ) ) * ( typeof \x7b \"\\\"\" : \"\\\\\" \x7d ) . typeof" =
      .ok knot := by
  have hnumber : (ExprToken.number 1.5).Legible := by decide +kernel
  have hprintable : knot.Printable :=
    ⟨⟨⟨by decide, by decide⟩, ⟨by decide, by decide⟩, hnumber⟩, ⟨trivial, trivial⟩, by decide⟩
  have hprint : knot.print =
      "( a - ( b - 1.5 ) ) * ( typeof \x7b \"\\\"\" : \"\\\\\" \x7d ) . typeof" := by
    decide +kernel
  exact ⟨hprintable, hprint, hprint ▸ (Expr.parse_print hprintable).1⟩

end LiveMarkup
