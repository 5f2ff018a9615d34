import LiveMarkup.Expr.Parser
import Mathlib.Tactic.Lemma

/-!
# The grammar of expressions

What a sequence of tokens spells, as a grammar in tiers, from the loosest to the tightest:

    conditional    nullish | nullish ? conditional : conditional
    nullish        disjunction | nullish ?? disjunction
    disjunction    conjunction | disjunction || conjunction
    conjunction    equality | conjunction && equality
    equality       relational | equality (== != === !==) relational
    relational     additive | relational (< <= > >=) additive
    additive       multiplicative | additive (+ -) multiplicative
    multiplicative unary | multiplicative (* / %) unary
    unary          access | (! - + typeof) unary
    access         primary | access . name | access [ conditional ] | access ( items )
    primary        literal | name | ( conditional ) | [ items ] | { entries }

Items and entries have commas between them, and one may stand behind the last. An entry is a key, a
colon and a value, or a name that is its own value. The grammar knows nothing of binding powers.
-/

namespace LiveMarkup.Grammar

open LiveMarkup

/-- How tightly the parts of an expression hold together. -/
inductive Tier where
  | conditional
  | nullish
  | disjunction
  | conjunction
  | equality
  | relational
  | additive
  | multiplicative
  | unary
  | access
  | primary
deriving DecidableEq

namespace Tier

def rank : Tier → Nat
  | .conditional => 0
  | .nullish => 1
  | .disjunction => 2
  | .conjunction => 3
  | .equality => 4
  | .relational => 5
  | .additive => 6
  | .multiplicative => 7
  | .unary => 8
  | .access => 9
  | .primary => 10

/-- The next tighter tier; nothing is tighter than a primary expression. -/
def tighter : Tier → Tier
  | .conditional => .nullish
  | .nullish => .disjunction
  | .disjunction => .conjunction
  | .conjunction => .equality
  | .equality => .relational
  | .relational => .additive
  | .additive => .multiplicative
  | .multiplicative => .unary
  | .unary => .access
  | .access | .primary => .primary

end Tier

/-- The operators between two operands: their tier, their mark and what they make of the operands.
All of them group to the left. -/
inductive Joins : Tier → Punct → (Expr → Expr → Expr) → Prop
  | nullish : Joins .nullish .nullish (.logical .nullish)
  | or : Joins .disjunction .orOr (.logical .or)
  | and : Joins .conjunction .andAnd (.logical .and)
  | looseEqual : Joins .equality .looseEqual (.binary .looseEqual)
  | looseNotEqual : Joins .equality .looseNotEqual (.binary .looseNotEqual)
  | strictEqual : Joins .equality .strictEqual (.binary .strictEqual)
  | strictNotEqual : Joins .equality .strictNotEqual (.binary .strictNotEqual)
  | less : Joins .relational .less (.binary .less)
  | lessEqual : Joins .relational .lessEqual (.binary .lessEqual)
  | greater : Joins .relational .greater (.binary .greater)
  | greaterEqual : Joins .relational .greaterEqual (.binary .greaterEqual)
  | add : Joins .additive .plus (.binary .add)
  | subtract : Joins .additive .minus (.binary .subtract)
  | multiply : Joins .multiplicative .star (.binary .multiply)
  | divide : Joins .multiplicative .slash (.binary .divide)
  | remainder : Joins .multiplicative .percent (.binary .remainder)

/-- The operators before an operand. -/
inductive Applies : ExprToken → UnaryOp → Prop
  | not : Applies (.punct .bang) .not
  | negate : Applies (.punct .minus) .negate
  | plus : Applies (.punct .plus) .plus
  | typeof : Applies (.name "typeof") .typeof

def reserved : List String :=
  ["true", "false", "null", "undefined", "typeof"]

/-- The literals and names that are one token. -/
inductive Spells : ExprToken → Expr → Prop
  | number (x : Float) : Spells (.number x) (.number x)
  | text (s : String) : Spells (.text s) (.text s)
  | yes : Spells (.name "true") (.bool true)
  | no : Spells (.name "false") (.bool false)
  | null : Spells (.name "null") .null
  | undefined : Spells (.name "undefined") .undefined
  | name (free : n ∉ reserved) : Spells (.name n) (.name n)

/-- The keys of entries. Every word may be a key. -/
inductive Keys : ExprToken → String → Prop
  | name (n : String) : Keys (.name n) n
  | text (s : String) : Keys (.text s) s
  | number (x : Float) : Keys (.number x) (Number.text x)

/-- What the grammar has rules for. -/
inductive Phrase where
  | expression (l : Tier)
  | items
  | entries
  | entry

abbrev Phrase.Tree : Phrase → Type
  | .expression _ => Expr
  | .items => List Expr
  | .entries => List (String × Expr)
  | .entry => String × Expr

/-- The tokens are a phrase that stands for the tree. -/
inductive Derives : (φ : Phrase) → List ExprToken → φ.Tree → Prop
  /-- What holds together tightly holds together. -/
  | loosen (h : Derives (.expression l.tighter) ts e) : Derives (.expression l) ts e
  | conditional (htest : Derives (.expression .nullish) ts1 test)
      (hyes : Derives (.expression .conditional) ts2 yes)
      (hno : Derives (.expression .conditional) ts3 no) :
      Derives (.expression .conditional) (ts1 ++ .punct .question :: (ts2 ++ .punct .colon :: ts3))
        (.conditional test yes no)
  | join (op : Joins l p f) (hleft : Derives (.expression l) ts1 a)
      (hright : Derives (.expression l.tighter) ts2 b) :
      Derives (.expression l) (ts1 ++ .punct p :: ts2) (f a b)
  | apply (hop : Applies t op) (h : Derives (.expression .unary) ts e) :
      Derives (.expression .unary) (t :: ts) (.unary op e)
  | member (n : String) (h : Derives (.expression .access) ts e) :
      Derives (.expression .access) (ts ++ [.punct .dot, .name n]) (.member e n)
  | index (h : Derives (.expression .access) ts1 e)
      (hkey : Derives (.expression .conditional) ts2 key) :
      Derives (.expression .access) (ts1 ++ .punct .bracketOpen :: (ts2 ++ [.punct .bracketClose]))
        (.index e key)
  | call (h : Derives (.expression .access) ts1 e) (hargs : Derives .items ts2 args) :
      Derives (.expression .access) (ts1 ++ .punct .parenOpen :: (ts2 ++ [.punct .parenClose]))
        (.call e args)
  | token (h : Spells t e) : Derives (.expression .primary) [t] e
  | parens (h : Derives (.expression .conditional) ts e) :
      Derives (.expression .primary) (.punct .parenOpen :: (ts ++ [.punct .parenClose])) e
  | list (h : Derives .items ts items) :
      Derives (.expression .primary) (.punct .bracketOpen :: (ts ++ [.punct .bracketClose]))
        (.list items)
  | object (h : Derives .entries ts entries) :
      Derives (.expression .primary) (.punct .braceOpen :: (ts ++ [.punct .braceClose]))
        (.object entries)
  | noItems : Derives .items [] []
  | lastItem (h : Derives (.expression .conditional) ts e) : Derives .items ts [e]
  | moreItems (h : Derives (.expression .conditional) ts1 e) (hrest : Derives .items ts2 items) :
      Derives .items (ts1 ++ .punct .comma :: ts2) (e :: items)
  | noEntries : Derives .entries [] []
  | lastEntry (h : Derives .entry ts entry) : Derives .entries ts [entry]
  | moreEntries (h : Derives .entry ts1 entry) (hrest : Derives .entries ts2 entries) :
      Derives .entries (ts1 ++ .punct .comma :: ts2) (entry :: entries)
  | keyed (hkey : Keys t key) (h : Derives (.expression .conditional) ts e) :
      Derives .entry (t :: .punct .colon :: ts) (key, e)
  | shorthand (n : String) : Derives .entry [.name n] (n, .name n)

/-! ## Tiers in order -/

namespace Tier

lemma rank_tighter {l : Tier} (h : l ≠ .primary) : l.tighter.rank = l.rank + 1 := by
  cases l <;> first | rfl | exact absurd rfl h

lemma rank_injective {l l' : Tier} (h : l.rank = l'.rank) : l = l' := by
  cases l <;> cases l' <;> first | rfl | cases h

end Tier

lemma Derives.loosen_to (h : Derives (.expression l) ts e) (hle : l'.rank ≤ l.rank) :
    Derives (.expression l') ts e := by
  induction hgap : l.rank - l'.rank generalizing l' with
  | zero =>
    have heq : l' = l := Tier.rank_injective (by omega)
    exact heq ▸ h
  | succ gap ih =>
    have hne : l' ≠ .primary := by
      rintro rfl
      have hmost : l.rank ≤ Tier.primary.rank := by cases l <;> decide
      omega
    have hrank := Tier.rank_tighter hne
    exact .loosen (ih (by omega) (by omega))

lemma Derives.loosest (h : Derives (.expression l) ts e) :
    Derives (.expression .conditional) ts e :=
  h.loosen_to (Nat.zero_le _)

end LiveMarkup.Grammar
