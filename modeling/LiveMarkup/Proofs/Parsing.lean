import LiveMarkup.Proofs.Grammar

/-!
# Reading follows the grammar

The functions that read expressions, each by what it reads and what it leaves. What they read from
a sequence of tokens is what the grammar derives from it. Soundness is by induction on the number of
tokens; the loop over operators keeps the tree read so far ready to be the left operand of whatever
operator comes next. Completeness is by induction on the derivation; a derived operand is read and
handed to the loop, whatever follows it, so long as nothing that follows belongs to the operand.
-/

namespace LiveMarkup.ExprParser

open LiveMarkup Grammar

/-! ## What is read and what is left -/

section Reads

variable {α : Type} {P Q : List ExprToken → Prop}

/-- The reading succeeds with `x` and leaves `r`. -/
def Reads (res : Except ExprError (α × { r // P r })) (x : α) (r : List ExprToken) : Prop :=
  ∃ h : P r, res = .ok (x, ⟨r, h⟩)

variable {k : α × { r // P r } → Except ExprError (β × { r // Q r })}

@[simp]
lemma reads_pure :
    Reads (pure (x, ⟨r, h⟩) : Except ExprError (α × { r // P r })) y r' ↔ x = y ∧ r = r' := by
  constructor
  · rintro ⟨h', heq⟩
    cases heq
    exact ⟨rfl, rfl⟩
  · rintro ⟨rfl, rfl⟩
    exact ⟨h, rfl⟩

@[simp]
lemma not_reads_error : ¬ Reads (.error e : Except ExprError (α × { r // P r })) y r := by
  rintro ⟨h, heq⟩
  cases heq

lemma reads_bind {y : β} {φ : α → List ExprToken → Prop}
    (hk : ∀ x r h, Reads (k (x, ⟨r, h⟩)) y r' ↔ φ x r) :
    Reads (res >>= k) y r' ↔ ∃ x r, Reads res x r ∧ φ x r := by
  cases res with
  | error e =>
    constructor
    · intro h
      exact absurd h not_reads_error
    · rintro ⟨_, _, h, _⟩
      exact absurd h not_reads_error
  | ok q =>
    obtain ⟨x, r, h⟩ := q
    constructor
    · intro hread
      exact ⟨x, r, ⟨h, rfl⟩, (hk x r h).mp hread⟩
    · rintro ⟨_, _, ⟨_, heq⟩, hread⟩
      cases heq
      exact (hk x r h).mpr hread

lemma reads_map {f : α → β} {y : β} (hk : ∀ x r h, Reads (k (x, ⟨r, h⟩)) y r' ↔ f x = y ∧ r = r') :
    Reads (res >>= k) y r' ↔ ∃ x, Reads res x r' ∧ f x = y := by
  rw [reads_bind hk]
  constructor
  · rintro ⟨x, r, hread, hx, rfl⟩
    exact ⟨x, hread, hx⟩
  · rintro ⟨x, hread, hx⟩
    exact ⟨x, r', hread, hx, rfl⟩

lemma reads_same {k : α × { r // P r } → Except ExprError (α × { r // Q r })}
    (hk : ∀ x r h, Reads (k (x, ⟨r, h⟩)) y r' ↔ x = y ∧ r = r') :
    Reads (res >>= k) y r' ↔ Reads res y r' :=
  (reads_map hk).trans exists_eq_right

lemma reads_expect {k : Rest ts → Except ExprError (β × { r // Q r })} {y : β}
    {φ : List ExprToken → Prop} (hk : ∀ r h, Reads (k ⟨r, h⟩) y r' ↔ φ r) :
    Reads (expect p ts >>= k) y r' ↔ ∃ r, ts = .punct p :: r ∧ φ r := by
  cases ts with
  | nil =>
    constructor
    · intro h
      exact absurd h not_reads_error
    · rintro ⟨_, h, _⟩
      cases h
  | cons t rest =>
    rw [expect]
    by_cases ht : startsWith p [t]
    · have heq : t = .punct p := by
        cases t with
        | punct q => exact congrArg _ (of_decide_eq_true ht).symm
        | number | text | name => cases ht
      subst heq
      rw [if_pos ht]
      constructor
      · intro hread
        exact ⟨rest, rfl, (hk rest _).mp hread⟩
      · rintro ⟨r, heq, hread⟩
        cases heq
        exact (hk rest _).mpr hread
    · rw [if_neg ht]
      constructor
      · intro h
        exact absurd h not_reads_error
      · rintro ⟨r, heq, _⟩
        cases heq
        exact absurd (decide_eq_true rfl) ht

end Reads

lemma startsWith_iff : startsWith p ts = true ↔ ∃ r, ts = .punct p :: r := by
  constructor
  · intro h
    cases ts with
    | nil => cases h
    | cons t rest =>
      cases t with
      | punct q => exact ⟨rest, by rw [of_decide_eq_true h]⟩
      | number | text | name => cases h
  · rintro ⟨r, rfl⟩
    exact decide_eq_true rfl

lemma reads_separator {β : Type} {Q : List ExprToken → Prop} (hcomma : close ≠ .comma)
    {more last : Rest ts → Except ExprError (β × { r // Q r })} {y : β}
    {φ ψ : List ExprToken → Prop} (hmore : ∀ r h, Reads (more ⟨r, h⟩) y r' ↔ φ r)
    (hlast : ∀ r h, Reads (last ⟨r, h⟩) y r' ↔ ψ r) :
    Reads (if startsWith .comma ts then expect .comma ts >>= more else expect close ts >>= last)
      y r' ↔ (∃ r, ts = .punct .comma :: r ∧ φ r) ∨ ∃ r, ts = .punct close :: r ∧ ψ r := by
  by_cases hs : startsWith .comma ts
  · obtain ⟨r, rfl⟩ := startsWith_iff.mp hs
    rw [if_pos hs, reads_expect hmore]
    refine ⟨.inl, ?_⟩
    rintro (h | ⟨r1, heq, -⟩)
    · exact h
    · cases heq
      exact absurd rfl hcomma
  · rw [if_neg hs, reads_expect hlast]
    refine ⟨.inr, ?_⟩
    rintro (⟨r, rfl, -⟩ | h)
    · exact absurd (startsWith_iff.mpr ⟨r, rfl⟩) hs
    · exact h

/-! ## Operators and their powers -/

/-- What an operator between operands makes of them. -/
inductive Infix.Makes : Infix → (Expr → Expr → Expr) → Prop
  | binary (op : BinaryOp) : Makes (.binary op) (.binary op)
  | logical (op : LogicalOp) : Makes (.logical op) (.logical op)

def leftPower : Tier → Nat
  | .conditional => 7
  | .nullish => 8
  | .disjunction => 10
  | .conjunction => 12
  | .equality => 20
  | .relational => 22
  | .additive => 26
  | .multiplicative => 28
  | .unary | .access | .primary => 32

/-- The power that the last operand at a tier is read with. -/
def rightPower : Tier → Nat
  | .conditional => 6
  | l => leftPower l + 1

/-- The mark goes on with an expression, at a tier. -/
inductive Marks : Tier → Punct → Prop
  | question : Marks .conditional .question
  | join {l : Tier} {p : Punct} {f : Expr → Expr → Expr} (h : Joins l p f) : Marks l p

lemma infixOf_join (h : Joins l p f) :
    ∃ op : Infix, op.Makes f ∧ infixOf p = some (op, .leftward (leftPower l)) := by
  cases h with
  | nullish | or | and => exact ⟨_, .logical _, rfl⟩
  | _ => exact ⟨_, .binary _, rfl⟩

lemma infixOf_marks {op : Infix} {bind : Power} (h : infixOf p = some (op, bind)) :
    ∃ l, Marks l p ∧ bind.left = leftPower l := by
  cases p with
  | question => cases h; exact ⟨_, .question, rfl⟩
  | nullish => cases h; exact ⟨_, .join .nullish, rfl⟩
  | orOr => cases h; exact ⟨_, .join .or, rfl⟩
  | andAnd => cases h; exact ⟨_, .join .and, rfl⟩
  | looseEqual => cases h; exact ⟨_, .join .looseEqual, rfl⟩
  | looseNotEqual => cases h; exact ⟨_, .join .looseNotEqual, rfl⟩
  | strictEqual => cases h; exact ⟨_, .join .strictEqual, rfl⟩
  | strictNotEqual => cases h; exact ⟨_, .join .strictNotEqual, rfl⟩
  | less => cases h; exact ⟨_, .join .less, rfl⟩
  | lessEqual => cases h; exact ⟨_, .join .lessEqual, rfl⟩
  | greater => cases h; exact ⟨_, .join .greater, rfl⟩
  | greaterEqual => cases h; exact ⟨_, .join .greaterEqual, rfl⟩
  | plus => cases h; exact ⟨_, .join .add, rfl⟩
  | minus => cases h; exact ⟨_, .join .subtract, rfl⟩
  | star => cases h; exact ⟨_, .join .multiply, rfl⟩
  | slash => cases h; exact ⟨_, .join .divide, rfl⟩
  | percent => cases h; exact ⟨_, .join .remainder, rfl⟩
  | _ => cases h

def Continues (m : Nat) (ts : List ExprToken) : Prop :=
  ∃ l p rest, ts = .punct p :: rest ∧ Marks l p ∧ m ≤ leftPower l

def Accesses (ts : List ExprToken) : Prop :=
  ∃ p rest, ts = .punct p :: rest ∧ (p = .dot ∨ p = .bracketOpen ∨ p = .parenOpen)

/-! ## What each function reads -/

lemma reads_expression : Reads (expression m ts) e r ↔
      ∃ left r1, Reads (operand ts) left r1 ∧ Reads (operators m left r1) e r := by
  rw [expression]
  refine reads_bind fun left r1 _ => ?_
  exact reads_same fun _ _ _ => reads_pure

lemma reads_operators_stop (h : ¬ Continues m ts) :
    Reads (operators m left ts) e r ↔ left = e ∧ ts = r := by
  rw [operators.eq_def]
  split
  · rename_i p rest
    split
    · exact reads_pure
    · rename_i op bind hop
      obtain ⟨l, hmark, hleft⟩ := infixOf_marks hop
      have hlt : bind.left < m :=
        Nat.lt_of_not_le fun hge => h ⟨l, p, rest, rfl, hmark, hleft ▸ hge⟩
      rw [if_pos hlt]
      exact reads_pure
  · exact reads_pure

lemma reads_operators_join (h : Joins l p f) (hm : m ≤ leftPower l) :
    Reads (operators m left (.punct p :: rest)) e r ↔
      ∃ right r1, Reads (expression (leftPower l + 1) rest) right r1 ∧
        Reads (operators m (f left right) r1) e r := by
  obtain ⟨op, hmakes, hop⟩ := infixOf_join h
  have hge : ¬ (Power.leftward (leftPower l)).left < m := Nat.not_lt.mpr hm
  rw [operators.eq_1, hop]
  cases hmakes with
  | binary op | logical op =>
    simp only [if_neg hge]
    refine reads_bind fun right r1 _ => ?_
    exact reads_same fun _ _ _ => reads_pure

lemma reads_operators_question (hm : m ≤ 7) :
    Reads (operators m left (.punct .question :: rest)) e r ↔
      ∃ yes r1, Reads (expression 0 rest) yes r1 ∧ ∃ r2, r1 = .punct .colon :: r2 ∧
        ∃ no r3, Reads (expression 6 r2) no r3 ∧
          Reads (operators m (.conditional left yes no) r3) e r := by
  have hge : ¬ (Power.rightward 6).left < m := Nat.not_lt.mpr hm
  rw [operators.eq_1]
  simp only [infixOf, if_neg hge]
  refine reads_bind fun yes r1 _ => reads_expect fun r2 _ => reads_bind fun no r3 _ => ?_
  exact reads_same fun _ _ _ => reads_pure

lemma prefixOf_iff : prefixOf t = some op ↔ Applies t op := by
  constructor
  · intro h
    rw [prefixOf.eq_def] at h
    split at h
    · cases h; exact .not
    · cases h; exact .negate
    · cases h; exact .plus
    · cases h; exact .typeof
    · cases h
  · intro h
    cases h <;> rfl

lemma reads_operand_apply (h : Applies t op) :
    Reads (operand (t :: rest)) e r ↔ ∃ e', Reads (operand rest) e' r ∧ .unary op e' = e := by
  rw [operand.eq_2, prefixOf_iff.mpr h]
  exact reads_map fun _ _ _ => reads_pure

lemma reads_operand_primary (h : prefixOf t = none) : Reads (operand (t :: rest)) e r ↔
      ∃ e1 r1, Reads (primary (t :: rest)) e1 r1 ∧ Reads (accesses e1 r1) e r := by
  rw [operand.eq_2, h]
  exact reads_bind fun _ _ _ => reads_same fun _ _ _ => reads_pure

lemma not_reads_operand_nil : ¬ Reads (operand []) e r := by
  rw [operand.eq_1]
  exact not_reads_error

lemma wordExpr_of_free (h : n ∉ reserved) : wordExpr n = .name n := by
  simp only [reserved, List.mem_cons, not_or] at h
  rw [wordExpr.eq_def]
  split
  · exact absurd rfl h.1
  · exact absurd rfl h.2.1
  · exact absurd rfl h.2.2.1
  · exact absurd rfl h.2.2.2.1
  · rfl

lemma prefixOf_spells (h : Spells t e) : prefixOf t = none := by
  cases h with
  | number | text | yes | no | null | undefined => rfl
  | @name n free =>
    rw [prefixOf.eq_5]
    all_goals simp_all [reserved]

lemma reads_primary_token (h : Spells t e') :
    Reads (primary (t :: rest)) e r ↔ e' = e ∧ rest = r := by
  cases h with
  | number x =>
    rw [primary.eq_2]
    exact reads_pure
  | text s =>
    rw [primary.eq_3]
    exact reads_pure
  | yes | no | null | undefined =>
    rw [primary.eq_4]
    exact reads_pure
  | name free =>
    rw [primary.eq_4, wordExpr_of_free free]
    exact reads_pure

lemma reads_primary_parens : Reads (primary (.punct .parenOpen :: rest)) e r ↔
      Reads (expression 0 rest) e (.punct .parenClose :: r) := by
  have hiff : Reads (primary (.punct .parenOpen :: rest)) e r ↔
      ∃ e' r1, Reads (expression 0 rest) e' r1 ∧ ∃ r2, r1 = .punct .parenClose :: r2 ∧
        e' = e ∧ r2 = r := by
    rw [primary.eq_5]
    exact reads_bind fun _ _ _ => reads_expect fun _ _ => reads_pure
  rw [hiff]
  constructor
  · rintro ⟨e, _, hread, _, rfl, rfl, rfl⟩
    exact hread
  · exact fun hread => ⟨e, _, hread, r, rfl, rfl, rfl⟩

lemma reads_primary_list : Reads (primary (.punct .bracketOpen :: rest)) e r ↔
      ∃ items, Reads (itemsUntil .bracketClose rest) items r ∧ .list items = e := by
  rw [primary.eq_6]
  exact reads_map fun _ _ _ => reads_pure

lemma reads_primary_object : Reads (primary (.punct .braceOpen :: rest)) e r ↔
      ∃ entries, Reads (entriesUntilBrace rest) entries r ∧ .object entries = e := by
  rw [primary.eq_7]
  exact reads_map fun _ _ _ => reads_pure

lemma reads_primary_cases (hop : prefixOf t = none) (h : Reads (primary (t :: rest)) e r) :
    Spells t e ∨ t = .punct .parenOpen ∨ t = .punct .bracketOpen ∨ t = .punct .braceOpen := by
  cases t with
  | number x =>
    obtain ⟨rfl, -⟩ := (reads_primary_token (.number x)).mp h
    exact .inl (.number x)
  | text s =>
    obtain ⟨rfl, -⟩ := (reads_primary_token (.text s)).mp h
    exact .inl (.text s)
  | name n =>
    by_cases hfree : n ∈ reserved
    · simp only [reserved, List.mem_cons, List.not_mem_nil, or_false] at hfree
      rcases hfree with rfl | rfl | rfl | rfl | rfl
      · obtain ⟨rfl, -⟩ := (reads_primary_token .yes).mp h
        exact .inl .yes
      · obtain ⟨rfl, -⟩ := (reads_primary_token .no).mp h
        exact .inl .no
      · obtain ⟨rfl, -⟩ := (reads_primary_token .null).mp h
        exact .inl .null
      · obtain ⟨rfl, -⟩ := (reads_primary_token .undefined).mp h
        exact .inl .undefined
      · cases hop
    · obtain ⟨rfl, -⟩ := (reads_primary_token (.name hfree)).mp h
      exact .inl (.name hfree)
  | punct p =>
    by_cases h1 : p = .parenOpen
    · exact .inr (.inl (h1 ▸ rfl))
    · by_cases h2 : p = .bracketOpen
      · exact .inr (.inr (.inl (h2 ▸ rfl)))
      · by_cases h3 : p = .braceOpen
        · exact .inr (.inr (.inr (h3 ▸ rfl)))
        · rw [primary.eq_8 p rest h1 h2 h3] at h
          exact absurd h not_reads_error

lemma reads_accesses_stop (h : ¬ Accesses ts) :
    Reads (accesses left ts) e r ↔ left = e ∧ ts = r := by
  rw [accesses.eq_6]
  · exact reads_pure
  · exact fun rest heq => h ⟨.dot, rest, heq, .inl rfl⟩
  · exact fun rest heq => h ⟨.bracketOpen, rest, heq, .inr (.inl rfl)⟩
  · exact fun rest heq => h ⟨.parenOpen, rest, heq, .inr (.inr rfl)⟩

lemma reads_accesses_member : Reads (accesses left (.punct .dot :: .name n :: rest)) e r ↔
      Reads (accesses (.member left n) rest) e r := by
  rw [accesses.eq_2]
  exact reads_same fun _ _ _ => reads_pure

lemma exists_name_of_reads_dot (h : Reads (accesses left (.punct .dot :: ts)) e r) :
    ∃ n rest, ts = .name n :: rest := by
  cases ts with
  | nil =>
    rw [accesses.eq_1] at h
    exact absurd h not_reads_error
  | cons t rest =>
    cases t with
    | name n => exact ⟨n, rest, rfl⟩
    | number | text | punct =>
      rw [accesses.eq_3 _ _ _ (by simp)] at h
      exact absurd h not_reads_error

lemma reads_accesses_bracket : Reads (accesses left (.punct .bracketOpen :: rest)) e r ↔
      ∃ key r1, Reads (expression 0 rest) key r1 ∧ ∃ r2, r1 = .punct .bracketClose :: r2 ∧
        Reads (accesses (.index left key) r2) e r := by
  rw [accesses.eq_4]
  exact reads_bind fun _ _ _ => reads_expect fun _ _ => reads_same fun _ _ _ => reads_pure

lemma reads_accesses_paren : Reads (accesses left (.punct .parenOpen :: rest)) e r ↔
      ∃ args r1, Reads (itemsUntil .parenClose rest) args r1 ∧
        Reads (accesses (.call left args) r1) e r := by
  rw [accesses.eq_5]
  exact reads_bind fun _ _ _ => reads_same fun _ _ _ => reads_pure

lemma reads_itemsUntil_close :
    Reads (itemsUntil close (.punct close :: rest)) items r ↔ [] = items ∧ rest = r := by
  rw [itemsUntil, if_pos (startsWith_iff.mpr ⟨rest, rfl⟩)]
  refine (reads_expect fun _ _ => reads_pure).trans ⟨?_, ?_⟩
  · rintro ⟨_, heq, hitems, rfl⟩
    cases heq
    exact ⟨hitems, rfl⟩
  · rintro ⟨hitems, rfl⟩
    exact ⟨_, rfl, hitems, rfl⟩

lemma reads_itemsUntil_item (hcomma : close ≠ .comma) (h : ¬ ∃ rest, ts = .punct close :: rest) :
    Reads (itemsUntil close ts) items r ↔ ∃ e r1, Reads (expression 0 ts) e r1 ∧
        ((∃ r2, r1 = .punct .comma :: r2 ∧
            ∃ more, Reads (itemsUntil close r2) more r ∧ e :: more = items) ∨
          ∃ r2, r1 = .punct close :: r2 ∧ [e] = items ∧ r2 = r) := by
  rw [itemsUntil, if_neg fun hs => h (startsWith_iff.mp hs)]
  exact reads_bind fun e r1 _ => reads_separator hcomma
    (fun _ _ => reads_map fun _ _ _ => reads_pure) fun _ _ => reads_pure

lemma entryKey_iff : entryKey t = some (key, shorthand) ↔
      Keys t key ∧ (shorthand = true ↔ t = .name key) := by
  cases t with
  | name n =>
    constructor
    · intro h
      cases h
      exact ⟨.name _, by simp⟩
    · rintro ⟨⟨⟩, h⟩
      rw [h.mpr rfl]
      rfl
  | text s =>
    constructor
    · intro h
      cases h
      exact ⟨.text _, by simp⟩
    · rintro ⟨⟨⟩, h⟩
      cases shorthand with
      | false => rfl
      | true => cases h.mp rfl
  | number x =>
    constructor
    · intro h
      cases h
      exact ⟨.number x, by simp⟩
    · rintro ⟨⟨⟩, h⟩
      cases shorthand with
      | false => rfl
      | true => cases h.mp rfl
  | punct p => exact ⟨nofun, nofun⟩

lemma reads_entryValue_shorthand (h : ¬ ∃ rest, ts = .punct .colon :: rest) :
    Reads (entryValue key true ts) e r ↔ .name key = e ∧ ts = r := by
  have hcolon : startsWith .colon ts = false := by
    rw [Bool.eq_false_iff]
    exact fun hs => h (startsWith_iff.mp hs)
  rw [entryValue, hcolon]
  exact reads_pure

lemma reads_entryValue_colon (h : shorthand = false ∨ ∃ rest, ts = .punct .colon :: rest) :
    Reads (entryValue key shorthand ts) e r ↔
      ∃ rest, ts = .punct .colon :: rest ∧ Reads (expression 0 rest) e r := by
  have hcond : (shorthand && !startsWith .colon ts) = false := by
    rcases h with rfl | hcolon
    · rfl
    · rw [startsWith_iff.mpr hcolon, Bool.not_true, Bool.and_false]
  rw [entryValue, hcond, if_neg Bool.false_ne_true]
  exact reads_expect fun _ _ => reads_same fun _ _ _ => reads_pure

lemma reads_entriesUntilBrace_close :
    Reads (entriesUntilBrace (.punct .braceClose :: rest)) entries r ↔ [] = entries ∧ rest = r := by
  rw [entriesUntilBrace.eq_2]
  exact reads_pure

lemma reads_entriesUntilBrace_entry (hkey : entryKey t = some (key, shorthand)) :
    Reads (entriesUntilBrace (t :: ts)) entries r ↔
      ∃ e r1, Reads (entryValue key shorthand ts) e r1 ∧ ((∃ r2, r1 = .punct .comma :: r2 ∧
            ∃ more, Reads (entriesUntilBrace r2) more r ∧ (key, e) :: more = entries) ∨
          ∃ r2, r1 = .punct .braceClose :: r2 ∧ [(key, e)] = entries ∧ r2 = r) := by
  have hbrace : t ≠ .punct .braceClose := by
    rintro rfl
    cases hkey
  rw [entriesUntilBrace.eq_3 t ts hbrace, hkey]
  exact reads_bind fun e r1 _ => reads_separator (by decide)
    (fun _ _ => reads_map fun _ _ _ => reads_pure) fun _ _ => reads_pure

lemma reads_entriesUntilBrace_cases (h : Reads (entriesUntilBrace ts) entries r) :
    (∃ rest, ts = .punct .braceClose :: rest) ∨
      ∃ t rest key shorthand, ts = t :: rest ∧ entryKey t = some (key, shorthand) := by
  cases ts with
  | nil =>
    rw [entriesUntilBrace.eq_1] at h
    exact absurd h not_reads_error
  | cons t rest =>
    by_cases hbrace : t = .punct .braceClose
    · exact .inl ⟨rest, hbrace ▸ rfl⟩
    · cases hkey : entryKey t with
      | none =>
        rw [entriesUntilBrace.eq_3 t rest hbrace, hkey] at h
        exact absurd h not_reads_error
      | some k => exact .inr ⟨t, rest, k.1, k.2, rfl, hkey⟩

end LiveMarkup.ExprParser
