import LiveMarkup.Proofs.Lexing
import LiveMarkup.Proofs.Parsing

/-!
# Expressions are read by their grammar

A source is read as an expression exactly when its tokens are derived in the grammar, and the tree
that is read is the one that is derived; so no sequence of tokens has two trees.

What is read is derived: by induction on the number of tokens, the loop over operators keeping the
tree read so far ready to be the left operand of whatever operator comes next. What is derived is
read: by induction on the derivation, every operand being read and handed to the loop, whatever
follows it, so long as nothing that follows belongs to the operand.
-/

namespace LiveMarkup.ExprParser

open LiveMarkup Grammar List ExprToken

variable {ts : List ExprToken}

/-! ## Tiers and powers -/

lemma rank_lt_of_marks (h : Marks l p) : l.rank < Tier.unary.rank := by
  cases h with
  | question => decide
  | join h => cases h <;> decide

lemma rank_pos_of_joins (h : Joins l p f) : 0 < l.rank := by
  cases h <;> decide

lemma leftPower_lt_iff (h : l.rank < Tier.unary.rank) (h' : l'.rank < Tier.unary.rank) :
    leftPower l < leftPower l' ↔ l.rank < l'.rank := by
  cases l <;> cases l' <;> revert h h' <;> decide

lemma ne_primary_of_marks (h : Marks l p) : l ≠ .primary := by
  rintro rfl
  exact absurd (rank_lt_of_marks h) (by decide)

/-- Reading with power `m` reads what is of tier `l`: it goes on with the operators of this tier and
of tighter ones, and with no others. -/
structure Opens (m : Nat) (l : Tier) : Prop where
  operand : l.rank ≤ Tier.unary.rank
  operators : ∀ {l' p}, Marks l' p → (m ≤ leftPower l' ↔ l.rank ≤ l'.rank)

lemma six_le_leftPower (l : Tier) : 6 ≤ leftPower l := by
  cases l <;> decide

lemma opens_conditional (hm : m ≤ 6) : Opens m .conditional :=
  ⟨by decide, fun {l' _} _ =>
    ⟨fun _ => Nat.zero_le _, fun _ => Nat.le_trans hm (six_le_leftPower l')⟩⟩

lemma opens_tighter (h : Joins l p f) : Opens (leftPower l + 1) l.tighter := by
  have hl := rank_lt_of_marks (.join h)
  have htighter := Tier.rank_tighter (ne_primary_of_marks (.join h))
  refine ⟨htighter ▸ hl, ?_⟩
  intro l' p' h'
  rw [Nat.succ_le_iff, leftPower_lt_iff hl (rank_lt_of_marks h'), htighter, Nat.succ_le_iff]

def leftTier : Tier → Tier
  | .conditional => .nullish
  | l => l

/-- The tree read so far can be the left operand of the operator that comes next. -/
def Ready (m : Nat) (used : List ExprToken) (left : Expr) (ts : List ExprToken) : Prop :=
  ∀ l p rest, ts = .punct p :: rest → Marks l p → m ≤ leftPower l →
    Derives (.expression (leftTier l)) used left

lemma Ready.of_unary (h : Derives (.expression .unary) used left) : Ready m used left ts := by
  intro l p rest _ hmark _
  refine h.loosen_to ?_
  cases hmark with
  | question => decide
  | join h => cases h <;> decide

lemma Ready.of_join (hop : Joins l p f) (h : Derives (.expression l) used left)
    (hstop : ¬ Continues (leftPower l + 1) ts) : Ready m used left ts := by
  intro l' p' rest hts hmark _
  have hle : l'.rank ≤ l.rank := by
    have hpower : ¬ leftPower l + 1 ≤ leftPower l' := fun hle => hstop ⟨l', p', rest, hts, hmark, hle⟩
    have hiff := leftPower_lt_iff (rank_lt_of_marks (.join hop)) (rank_lt_of_marks hmark)
    omega
  refine h.loosen_to ?_
  cases hmark with
  | question => exact rank_pos_of_joins hop
  | join hop' =>
    have htier : leftTier l' = l' := by cases hop' <;> rfl
    rwa [htier]

/-! ## What is read is derived -/

lemma Reads.shorter {res : Except ExprError (α × Rest ts)} (h : Reads res x r) :
    r.length < ts.length :=
  h.1

lemma Reads.notLonger {res : Except ExprError (α × Tail ts)} (h : Reads res x r) :
    r.length ≤ ts.length :=
  h.1

/-- What the functions read from fewer than `n` tokens is derived in the grammar, and operators are
left only where they bind too loosely. -/
structure SoundBelow (n : Nat) : Prop where
  expression : ∀ {ts m l e r}, ts.length < n → Opens m l → Reads (expression m ts) e r →
    ∃ used, ts = used ++ r ∧ Derives (.expression l) used e ∧ ¬ Continues m r
  operators : ∀ {ts m l used left e r}, ts.length < n → Opens m l →
    Derives (.expression l) used left → Ready m used left ts → Reads (operators m left ts) e r →
    ∃ more, ts = more ++ r ∧ Derives (.expression l) (used ++ more) e ∧ ¬ Continues m r
  operand : ∀ {ts e r}, ts.length < n → Reads (operand ts) e r →
    ∃ used, ts = used ++ r ∧ Derives (.expression .unary) used e
  accesses : ∀ {ts used left e r}, ts.length < n → Derives (.expression .access) used left →
    Reads (accesses left ts) e r →
    ∃ more, ts = more ++ r ∧ Derives (.expression .access) (used ++ more) e
  items : ∀ {ts close items r}, ts.length < n → close ≠ .comma →
    Reads (itemsUntil close ts) items r →
    ∃ used, ts = used ++ .punct close :: r ∧ Derives .items used items
  entries : ∀ {ts entries r}, ts.length < n → Reads (entriesUntilBrace ts) entries r →
    ∃ used, ts = used ++ .punct .braceClose :: r ∧ Derives .entries used entries

section

variable (h : SoundBelow ts.length)
include h

lemma primary_derived (hts : ts = t :: rest) (hop : prefixOf t = none)
    (hread : Reads (primary ts) e r) :
    ∃ used, ts = used ++ r ∧ Derives (.expression .primary) used e := by
  subst hts
  have hlt : rest.length < (t :: rest).length := Nat.lt_succ_self _
  rcases reads_primary_cases hop hread with hspells | rfl | rfl | rfl
  · obtain ⟨-, rfl⟩ := (reads_primary_token hspells).mp hread
    exact ⟨[t], rfl, .token hspells⟩
  · obtain ⟨used, rfl, hderives, -⟩ :=
      h.expression hlt (opens_conditional (by decide)) (reads_primary_parens.mp hread)
    exact ⟨_, by simp, .parens hderives⟩
  · obtain ⟨items, hitems, rfl⟩ := reads_primary_list.mp hread
    obtain ⟨used, rfl, hderives⟩ := h.items hlt (by decide) hitems
    exact ⟨_, by simp, .list hderives⟩
  · obtain ⟨entries, hentries, rfl⟩ := reads_primary_object.mp hread
    obtain ⟨used, rfl, hderives⟩ := h.entries hlt hentries
    exact ⟨_, by simp, .object hderives⟩

lemma operand_derived (hread : Reads (operand ts) e r) :
    ∃ used, ts = used ++ r ∧ Derives (.expression .unary) used e := by
  cases ts with
  | nil => exact absurd hread not_reads_operand_nil
  | cons t rest =>
    cases hop : prefixOf t with
    | some op =>
      have happlies := prefixOf_iff.mp hop
      obtain ⟨e', hread', rfl⟩ := (reads_operand_apply happlies).mp hread
      obtain ⟨used, rfl, hderives⟩ := h.operand (Nat.lt_succ_self _) hread'
      exact ⟨t :: used, rfl, .apply happlies hderives⟩
    | none =>
      obtain ⟨e1, r1, hprimary, haccesses⟩ := (reads_operand_primary hop).mp hread
      obtain ⟨used, hused, hderives⟩ := primary_derived h rfl hop hprimary
      obtain ⟨more, rfl, hderives'⟩ := h.accesses hprimary.shorter (.loosen hderives) haccesses
      exact ⟨used ++ more, by rw [hused, append_assoc], .loosen hderives'⟩

lemma accesses_derived (hleft : Derives (.expression .access) used left)
    (hread : Reads (accesses left ts) e r) :
    ∃ more, ts = more ++ r ∧ Derives (.expression .access) (used ++ more) e := by
  by_cases hnext : Accesses ts
  · obtain ⟨p, rest, rfl, hp⟩ := hnext
    have hlt : rest.length < (punct p :: rest).length := Nat.lt_succ_self _
    rcases hp with rfl | rfl | rfl
    · obtain ⟨n, rest, rfl⟩ := exists_name_of_reads_dot hread
      obtain ⟨more, rfl, hderives⟩ := h.accesses (by simp only [length_cons]; omega)
        (hleft.member n) (reads_accesses_member.mp hread)
      exact ⟨.punct .dot :: .name n :: more, rfl, by simpa using hderives⟩
    · obtain ⟨key, _, hkey, r2, rfl, hrest⟩ := reads_accesses_bracket.mp hread
      obtain ⟨inner, rfl, hinner, -⟩ := h.expression hlt (opens_conditional (by decide)) hkey
      obtain ⟨more, rfl, hderives⟩ := h.accesses (by simp only [length_cons, length_append]; omega)
        (hleft.index hinner) hrest
      exact ⟨.punct .bracketOpen :: (inner ++ .punct .bracketClose :: more), by simp,
        by simpa using hderives⟩
    · obtain ⟨args, r1, hargs, hrest⟩ := reads_accesses_paren.mp hread
      obtain ⟨inner, rfl, hinner⟩ := h.items hlt (by decide) hargs
      obtain ⟨more, rfl, hderives⟩ := h.accesses (by simp only [length_cons, length_append]; omega)
        (hleft.call hinner) hrest
      exact ⟨.punct .parenOpen :: (inner ++ .punct .parenClose :: more), by simp,
        by simpa using hderives⟩
  · obtain ⟨rfl, rfl⟩ := (reads_accesses_stop hnext).mp hread
    exact ⟨[], rfl, by simpa using hleft⟩

lemma operators_derived (hopens : Opens m l) (hleft : Derives (.expression l) used left)
    (hready : Ready m used left ts) (hread : Reads (operators m left ts) e r) :
    ∃ more, ts = more ++ r ∧ Derives (.expression l) (used ++ more) e ∧ ¬ Continues m r := by
  by_cases hnext : Continues m ts
  · obtain ⟨l', p, rest, rfl, hmark, hm⟩ := hnext
    have hlt : rest.length < (punct p :: rest).length := Nat.lt_succ_self _
    have hle : l.rank ≤ l'.rank := (hopens.operators hmark).mp hm
    have hoperand := hready l' p rest rfl hmark hm
    cases hmark with
    | question =>
      -- only an expression of the loosest tier goes on with a question mark
      obtain rfl : l = .conditional := Tier.rank_injective (Nat.le_zero.mp hle)
      obtain ⟨yes, _, hyes, r2, rfl, no, r3, hno, hrest⟩ := (reads_operators_question hm).mp hread
      obtain ⟨used1, rfl, hyes', -⟩ := h.expression hlt (opens_conditional (by decide)) hyes
      obtain ⟨used2, rfl, hno', hstop⟩ := h.expression
        (by simp only [length_cons, length_append]; omega) (opens_conditional (by decide)) hno
      have hready' : Ready m (used ++ .punct .question :: (used1 ++ .punct .colon :: used2))
          (.conditional left yes no) r3 :=
        fun l'' p' rest' hr hmark' _ =>
          absurd ⟨l'', p', rest', hr, hmark', six_le_leftPower l''⟩ hstop
      obtain ⟨more, rfl, hderives, hstop'⟩ := h.operators
        (by simp only [length_cons, length_append]; omega) hopens
        (hoperand.conditional hyes' hno') hready' hrest
      exact ⟨.punct .question :: (used1 ++ .punct .colon :: (used2 ++ more)), by simp,
        by simpa using hderives, hstop'⟩
    | @join _ _ f hop =>
      have htier : leftTier l' = l' := by cases hop <;> rfl
      rw [htier] at hoperand
      obtain ⟨right, r1, hright, hrest⟩ := (reads_operators_join hop hm).mp hread
      obtain ⟨used1, rfl, hright', hstop⟩ := h.expression hlt (opens_tighter hop) hright
      have hjoined := Derives.join hop hoperand hright'
      obtain ⟨more, rfl, hderives, hstop'⟩ := h.operators
        (by simp only [length_cons, length_append]; omega) hopens (hjoined.loosen_to hle)
        (.of_join hop hjoined hstop) hrest
      exact ⟨.punct p :: (used1 ++ more), by simp, by simpa using hderives, hstop'⟩
  · obtain ⟨rfl, rfl⟩ := (reads_operators_stop hnext).mp hread
    exact ⟨[], rfl, by simpa using hleft, hnext⟩

lemma expression_derived (hopens : Opens m l) (hread : Reads (expression m ts) e r) :
    ∃ used, ts = used ++ r ∧ Derives (.expression l) used e ∧ ¬ Continues m r := by
  obtain ⟨left, r1, hleft, hrest⟩ := reads_expression.mp hread
  obtain ⟨used, hused, hderives⟩ := operand_derived h hleft
  obtain ⟨more, rfl, hderives', hstop⟩ :=
    h.operators hleft.shorter hopens (hderives.loosen_to hopens.operand) (.of_unary hderives) hrest
  exact ⟨used ++ more, by rw [hused, append_assoc], hderives', hstop⟩

lemma items_derived {close : Punct} (hcomma : close ≠ .comma)
    (hread : Reads (itemsUntil close ts) items r) :
    ∃ used, ts = used ++ .punct close :: r ∧ Derives .items used items := by
  by_cases hclose : ∃ rest, ts = .punct close :: rest
  · obtain ⟨rest, rfl⟩ := hclose
    obtain ⟨rfl, rfl⟩ := reads_itemsUntil_close.mp hread
    exact ⟨[], rfl, .noItems⟩
  · obtain ⟨e, r1, hitem, hnext⟩ := (reads_itemsUntil_item hcomma hclose).mp hread
    obtain ⟨used, hused, hderives, -⟩ := expression_derived h (opens_conditional (by decide)) hitem
    have hlt := hitem.shorter
    rcases hnext with ⟨r2, rfl, more, hmore, rfl⟩ | ⟨r2, rfl, rfl, rfl⟩
    · obtain ⟨used2, rfl, hmore'⟩ := h.items (Nat.lt_of_succ_lt hlt) hcomma hmore
      exact ⟨used ++ .punct .comma :: used2, by simp [hused], .moreItems hderives hmore'⟩
    · exact ⟨used, hused, .lastItem hderives⟩

end

lemma entry_derived (h : SoundBelow (ts.length + 1)) (hkey : entryKey t = some (key, shorthand))
    (hread : Reads (entryValue key shorthand ts) e r) :
    ∃ used, t :: ts = used ++ r ∧ Derives .entry used (key, e) := by
  obtain ⟨hkeys, hname⟩ := entryKey_iff.mp hkey
  by_cases hcolon : ∃ rest, ts = .punct .colon :: rest
  · obtain ⟨rest, rfl, hvalue⟩ := (reads_entryValue_colon (.inr hcolon)).mp hread
    obtain ⟨used, rfl, hderives, -⟩ :=
      h.expression (by simp only [length_cons]; omega) (opens_conditional (by decide))
        hvalue
    exact ⟨t :: .punct .colon :: used, rfl, .keyed hkeys hderives⟩
  · cases shorthand with
    | true =>
      obtain ⟨rfl, rfl⟩ := (reads_entryValue_shorthand hcolon).mp hread
      obtain rfl := hname.mp rfl
      exact ⟨[.name key], rfl, .shorthand key⟩
    | false =>
      obtain ⟨rest, hts, -⟩ := (reads_entryValue_colon (.inl rfl)).mp hread
      exact absurd ⟨rest, hts⟩ hcolon

lemma entries_derived (h : SoundBelow ts.length) (hread : Reads (entriesUntilBrace ts) entries r) :
    ∃ used, ts = used ++ .punct .braceClose :: r ∧ Derives .entries used entries := by
  rcases reads_entriesUntilBrace_cases hread with ⟨rest, rfl⟩ | ⟨t, rest, key, shorthand, rfl, hkey⟩
  · obtain ⟨rfl, rfl⟩ := reads_entriesUntilBrace_close.mp hread
    exact ⟨[], rfl, .noEntries⟩
  · obtain ⟨e, r1, hvalue, hnext⟩ := (reads_entriesUntilBrace_entry hkey).mp hread
    obtain ⟨used, hused, hderives⟩ := entry_derived h hkey hvalue
    have hle := hvalue.notLonger
    rcases hnext with ⟨r2, rfl, more, hmore, rfl⟩ | ⟨r2, rfl, rfl, rfl⟩
    · have hlt : r2.length < (t :: rest).length := Nat.lt_succ_of_lt hle
      obtain ⟨used2, rfl, hmore'⟩ := h.entries hlt hmore
      exact ⟨used ++ .punct .comma :: used2, by simp [hused], .moreEntries hderives hmore'⟩
    · exact ⟨used, hused, .lastEntry hderives⟩

lemma soundBelow (n : Nat) : SoundBelow n := by
  induction n using Nat.strongRecOn with
  | _ n ih =>
    exact
      { expression := fun hts => expression_derived (ih _ hts)
        operators := fun hts => operators_derived (ih _ hts)
        operand := fun hts => operand_derived (ih _ hts)
        accesses := fun hts => accesses_derived (ih _ hts)
        items := fun hts hcomma hread => items_derived (ih _ hts) hcomma hread
        entries := fun hts => entries_derived (ih _ hts) }

/-! ## What is derived is read -/

/-- Nothing that comes next belongs to an expression of tier `l`. -/
structure Closed (l : Tier) (rest : List ExprToken) : Prop where
  accesses : ¬ Accesses rest
  operators : ¬ Continues (rightPower l) rest

lemma leftPower_le_tighter (l : Tier) : leftPower l ≤ leftPower l.tighter := by
  cases l <;> decide

lemma Continues.weaken (h : Continues m rest) (hm : m' ≤ m) : Continues m' rest := by
  obtain ⟨l, p, rest, rfl, hmark, hle⟩ := h
  exact ⟨l, p, rest, rfl, hmark, Nat.le_trans hm hle⟩

lemma Closed.tighter (h : Closed l rest) : Closed l.tighter rest := by
  refine ⟨h.accesses, fun hcont => h.operators (hcont.weaken ?_)⟩
  cases l <;> decide

lemma Closed.nil : Closed l [] := ⟨nofun, nofun⟩

def closers : List Punct :=
  [.colon, .comma, .parenClose, .bracketClose, .braceClose]

lemma not_continues_closer (hp : p ∈ closers) : ¬ Continues m (.punct p :: rest) := by
  rintro ⟨l, _, _, heq, hmark, -⟩
  cases heq
  cases hmark with
  | question => exact absurd hp (by decide)
  | join hop => cases hop <;> exact absurd hp (by decide)

lemma Closed.of_closer (hp : p ∈ closers) : Closed l (.punct p :: rest) := by
  refine ⟨?_, not_continues_closer hp⟩
  rintro ⟨_, _, heq, hp'⟩
  cases heq
  rcases hp' with rfl | rfl | rfl <;> exact absurd hp (by decide)

lemma Closed.of_join (hop : Joins l p f) : Closed l (.punct p :: rest) := by
  constructor
  · rintro ⟨_, _, heq, hp⟩
    cases heq
    rcases hp with rfl | rfl | rfl <;> cases hop
  · rintro ⟨l', _, _, heq, hmark, hle⟩
    cases heq
    cases hmark with
    | question => cases hop
    | join hop' => cases hop <;> cases hop' <;> exact absurd hle (by decide)

lemma Closed.of_question : Closed .nullish (.punct .question :: rest) := by
  constructor
  · rintro ⟨_, _, heq, hp⟩
    cases heq
    rcases hp with hp | hp | hp <;> cases hp
  · rintro ⟨l', _, _, heq, hmark, hle⟩
    cases heq
    cases hmark with
    | question => exact absurd hle (by decide)
    | join hop => cases hop

lemma not_reads_closer (hp : p ∈ closers) : ¬ Reads (expression m (.punct p :: rest)) e r := by
  intro h
  obtain ⟨left, r1, hoperand, -⟩ := reads_expression.mp h
  simp only [closers, mem_cons, not_mem_nil, or_false] at hp
  have hop : prefixOf (.punct p) = none := by
    rcases hp with rfl | rfl | rfl | rfl | rfl <;> rfl
  obtain ⟨e1, r2, hprimary, -⟩ := (reads_operand_primary hop).mp hoperand
  rcases reads_primary_cases hop hprimary with hspells | heq | heq | heq
  · cases hspells
  all_goals
    cases heq
    simp at hp

/-- Every phrase that the tokens derive is read from them, whatever follows. An operand is handed
over to what reads on behind it, so that nothing has to be known about where this stops. -/
def Readable : (φ : Phrase) → List ExprToken → φ.Tree → Prop
  | .expression .primary, ts, e => ∃ t rest, ts = t :: rest ∧ prefixOf t = none ∧
      ∀ r, Reads (primary (ts ++ r)) e r
  | .expression .access, ts, e => ∀ rest x r, Reads (accesses e rest) x r →
      Reads (operand (ts ++ rest)) x r
  | .expression .unary, ts, e => ∀ r, ¬ Accesses r → Reads (operand (ts ++ r)) e r
  | .expression l, ts, e => ∀ m rest x r, m ≤ leftPower l → Closed l rest →
      Reads (operators m e rest) x r → Reads (expression m (ts ++ rest)) x r
  | .items, ts, items => ∀ close r, close = .bracketClose ∨ close = .parenClose →
      Reads (itemsUntil close (ts ++ .punct close :: r)) items r
  | .entries, ts, entries => ∀ r, Reads (entriesUntilBrace (ts ++ .punct .braceClose :: r)) entries r
  | .entry, ts, (key, e) => ∃ t rest shorthand, ts = t :: rest ∧
      entryKey t = some (key, shorthand) ∧
      ∀ p r, p = .comma ∨ p = .braceClose →
        Reads (entryValue key shorthand (rest ++ .punct p :: r)) e (.punct p :: r)

section

variable (h : Readable (.expression l) ts e) (hl : l.rank ≤ Tier.unary.rank) (hm : m ≤ leftPower l)
  (hclosed : Closed l rest)
include h hl hm hclosed

lemma Readable.hand_over (hread : Reads (operators m e rest) x r) :
    Reads (expression m (ts ++ rest)) x r := by
  cases l with
  | unary => exact reads_expression.mpr ⟨e, rest, h rest hclosed.accesses, hread⟩
  | access | primary => exact absurd hl (by decide)
  | _ => exact h m rest x r hm hclosed hread

lemma Readable.read (hstop : ¬ Continues m rest) : Reads (expression m (ts ++ rest)) e rest :=
  h.hand_over hl hm hclosed ((reads_operators_stop hstop).mpr ⟨rfl, rfl⟩)

end

lemma Readable.read_upTo (h : Readable (.expression .conditional) ts e) (hp : p ∈ closers) :
    Reads (expression 0 (ts ++ .punct p :: rest)) e (.punct p :: rest) :=
  h.read (by decide) (Nat.zero_le _) (.of_closer hp) (not_continues_closer hp)

lemma Readable.loosen (h : Readable (.expression l.tighter) ts e) :
    Readable (.expression l) ts e := by
  cases l with
  | primary => exact h
  | access =>
    obtain ⟨t, rest, rfl, hop, hread⟩ := h
    intro rest' x r haccesses
    exact (reads_operand_primary hop).mpr ⟨e, rest', hread rest', haccesses⟩
  | unary => exact fun r hr => h r e r ((reads_accesses_stop hr).mpr ⟨rfl, rfl⟩)
  | _ =>
    intro m rest x r hm hclosed hread
    exact h.hand_over (by decide) (Nat.le_trans hm (leftPower_le_tighter _)) hclosed.tighter hread

namespace Readable

lemma conditional (htest : Readable (.expression .nullish) ts1 test)
    (hyes : Readable (.expression .conditional) ts2 yes)
    (hno : Readable (.expression .conditional) ts3 no) : Readable (.expression .conditional)
      (ts1 ++ .punct .question :: (ts2 ++ .punct .colon :: ts3)) (.conditional test yes no) := by
  intro m rest x r hm hclosed hread
  have hyes' : Reads (expression 0 (ts2 ++ .punct .colon :: (ts3 ++ rest))) yes
      (.punct .colon :: (ts3 ++ rest)) := hyes.read_upTo (by decide)
  have hno' : Reads (expression 6 (ts3 ++ rest)) no rest :=
    hno.read (by decide) (by decide) hclosed hclosed.operators
  have hloop := (reads_operators_question hm).mpr
    ⟨yes, _, hyes', ts3 ++ rest, rfl, no, rest, hno', hread⟩
  rw [append_assoc, cons_append, append_assoc, cons_append]
  exact htest.hand_over (by decide) (Nat.le_trans hm (by decide)) .of_question hloop

lemma join (hop : Joins l p f) (hleft : Readable (.expression l) ts1 a)
    (hright : Readable (.expression l.tighter) ts2 b) :
    Readable (.expression l) (ts1 ++ .punct p :: ts2) (f a b) := by
  have htier : l.rank ≤ Tier.unary.rank := Nat.le_of_lt (rank_lt_of_marks (.join hop))
  have hpower : rightPower l = leftPower l + 1 := by cases hop <;> rfl
  have hjoined : ∀ m rest x r, m ≤ leftPower l → Closed l rest →
      Reads (operators m (f a b) rest) x r →
      Reads (expression m ((ts1 ++ .punct p :: ts2) ++ rest)) x r := by
    intro m rest x r hm hclosed hread
    have hstop : ¬ Continues (leftPower l + 1) rest := hpower ▸ hclosed.operators
    have hpower' : leftPower l + 1 ≤ leftPower l.tighter := by cases hop <;> decide
    have hright' := hright.read (opens_tighter hop).operand hpower' hclosed.tighter hstop
    have hloop := (reads_operators_join hop hm).mpr ⟨b, rest, hright', hread⟩
    rw [append_assoc, cons_append]
    exact hleft.hand_over htier hm (.of_join hop) hloop
  cases hop <;> exact hjoined

lemma index (h : Readable (.expression .access) ts1 e)
    (hkey : Readable (.expression .conditional) ts2 key) : Readable (.expression .access)
      (ts1 ++ .punct .bracketOpen :: (ts2 ++ [.punct .bracketClose])) (.index e key) := by
  intro rest x r hread
  have hkey' : Reads (expression 0 (ts2 ++ .punct .bracketClose :: rest)) key
      (.punct .bracketClose :: rest) := hkey.read_upTo (by decide)
  rw [append_assoc, cons_append, append_assoc]
  exact h _ x r (reads_accesses_bracket.mpr ⟨key, _, hkey', rest, rfl, hread⟩)

lemma not_close (hclose : close = .bracketClose ∨ close = .parenClose)
    (h : Reads (expression 0 ts) e r) : ¬ ∃ rest, ts = .punct close :: rest := by
  rintro ⟨rest, rfl⟩
  rcases hclose with rfl | rfl <;> exact not_reads_closer (by decide) h

lemma lastItem (h : Readable (.expression .conditional) ts e) : Readable .items ts [e] := by
  intro close r hclose
  have hcomma : close ≠ .comma := by rcases hclose with rfl | rfl <;> decide
  have hcloser : close ∈ closers := by rcases hclose with rfl | rfl <;> decide
  have hread : Reads (expression 0 (ts ++ .punct close :: r)) e (.punct close :: r) :=
    h.read_upTo hcloser
  exact (reads_itemsUntil_item hcomma (not_close hclose hread)).mpr
    ⟨e, _, hread, .inr ⟨r, rfl, rfl, rfl⟩⟩

lemma moreItems (h : Readable (.expression .conditional) ts1 e)
    (hrest : Readable .items ts2 items) :
    Readable .items (ts1 ++ .punct .comma :: ts2) (e :: items) := by
  intro close r hclose
  have hcomma : close ≠ .comma := by rcases hclose with rfl | rfl <;> decide
  have hread : Reads (expression 0 (ts1 ++ .punct .comma :: (ts2 ++ .punct close :: r))) e
      (.punct .comma :: (ts2 ++ .punct close :: r)) := h.read_upTo (by decide)
  rw [append_assoc, cons_append]
  exact (reads_itemsUntil_item hcomma (not_close hclose hread)).mpr
    ⟨e, _, hread, .inl ⟨_, rfl, items, hrest close r hclose, rfl⟩⟩

lemma keyed (hkey : Keys t key) (h : Readable (.expression .conditional) ts e) :
    Readable .entry (t :: .punct .colon :: ts) (key, e) := by
  have hvalue : ∀ (shorthand : Bool) (p : Punct) (r : List ExprToken),
      p = .comma ∨ p = .braceClose →
      Reads (entryValue key shorthand (.punct .colon :: ts ++ .punct p :: r)) e (.punct p :: r) := by
    intro shorthand p r hp
    have hcloser : p ∈ closers := by rcases hp with rfl | rfl <;> decide
    exact (reads_entryValue_colon (.inr ⟨_, rfl⟩)).mpr ⟨_, rfl, h.read_upTo hcloser⟩
  cases hkey with
  | name n => exact ⟨_, _, true, rfl, rfl, hvalue true⟩
  | text s | number x => exact ⟨_, _, false, rfl, rfl, hvalue false⟩

lemma shorthand (n : String) : Readable .entry [.name n] (n, .name n) := by
  refine ⟨.name n, [], true, rfl, rfl, fun p r hp => ?_⟩
  refine (reads_entryValue_shorthand ?_).mpr ⟨rfl, rfl⟩
  rintro ⟨rest, heq⟩
  cases heq
  rcases hp with hp | hp <;> cases hp

end Readable

lemma readable_of_derives (h : Derives φ ts x) : Readable φ ts x := by
  induction h with
  | loosen _ ih => exact ih.loosen
  | conditional _ _ _ htest hyes hno => exact htest.conditional hyes hno
  | join hop _ _ hleft hright => exact .join hop hleft hright
  | apply hop _ ih => exact fun r hr => (reads_operand_apply hop).mpr ⟨_, ih r hr, rfl⟩
  | member n _ ih =>
    intro rest x r hread
    rw [append_assoc]
    exact ih _ x r (reads_accesses_member.mpr hread)
  | index _ _ ih hkey => exact ih.index hkey
  | call _ _ ih hargs =>
    intro rest x r hread
    rw [append_assoc, cons_append, append_assoc]
    exact ih _ x r (reads_accesses_paren.mpr ⟨_, rest, hargs _ rest (.inr rfl), hread⟩)
  | token h => exact ⟨_, [], rfl, prefixOf_spells h, fun _ => (reads_primary_token h).mpr ⟨rfl, rfl⟩⟩
  | parens _ ih =>
    refine ⟨_, _, rfl, rfl, fun r => ?_⟩
    rw [cons_append, append_assoc]
    exact reads_primary_parens.mpr (ih.read_upTo (by decide))
  | list _ ih =>
    refine ⟨_, _, rfl, rfl, fun r => ?_⟩
    rw [cons_append, append_assoc]
    exact reads_primary_list.mpr ⟨_, ih _ r (.inl rfl), rfl⟩
  | object _ ih =>
    refine ⟨_, _, rfl, rfl, fun r => ?_⟩
    rw [cons_append, append_assoc]
    exact reads_primary_object.mpr ⟨_, ih r, rfl⟩
  | noItems => exact fun _ _ _ => reads_itemsUntil_close.mpr ⟨rfl, rfl⟩
  | lastItem _ ih => exact ih.lastItem
  | moreItems _ _ ih hrest => exact ih.moreItems hrest
  | noEntries => exact fun _ => reads_entriesUntilBrace_close.mpr ⟨rfl, rfl⟩
  | lastEntry _ ih =>
    obtain ⟨t, rest, shorthand, rfl, hkey, hvalue⟩ := ih
    exact fun r => (reads_entriesUntilBrace_entry hkey).mpr
      ⟨_, _, hvalue .braceClose r (.inr rfl), .inr ⟨r, rfl, rfl, rfl⟩⟩
  | moreEntries _ _ ih hrest =>
    obtain ⟨t, rest, shorthand, rfl, hkey, hvalue⟩ := ih
    intro r
    rw [append_assoc, cons_append]
    exact (reads_entriesUntilBrace_entry hkey).mpr
      ⟨_, _, hvalue .comma _ (.inl rfl), .inl ⟨_, rfl, _, hrest r, rfl⟩⟩
  | keyed hkey _ ih => exact .keyed hkey ih
  | shorthand n => exact .shorthand n

/-! ## The two together -/

/-- The tokens that are read to the end as an expression are those that derive it. -/
lemma reads_all_iff : Reads (expression 0 ts) e [] ↔ Derives (.expression .conditional) ts e := by
  constructor
  · intro h
    obtain ⟨used, rfl, hderives, -⟩ :=
      (soundBelow (ts.length + 1)).expression (Nat.lt_succ_self _) (opens_conditional (by decide)) h
    simpa using hderives
  · intro h
    have hstop : ¬ Continues 0 [] := nofun
    have hread := (readable_of_derives h).read (by decide) (Nat.zero_le _) .nil hstop
    rwa [append_nil] at hread

end LiveMarkup.ExprParser

namespace LiveMarkup

open ExprParser Grammar

lemma Expr.parse_eq_ok_iff (htokens : ExprToken.tokenize source = .ok ts) :
    Expr.parse source = .ok e ↔ Reads (expression 0 ts) e [] := by
  rw [Expr.parse, htokens]
  cases ts with
  | nil => exact iff_of_false (by rintro ⟨⟩) fun h => absurd h.shorter (Nat.lt_irrefl _)
  | cons t rest =>
    show (expression 0 (t :: rest) >>= _) = .ok e ↔ _
    cases expression 0 (t :: rest) with
    | error err => exact iff_of_false (by rintro ⟨⟩) (by rintro ⟨_, ⟨⟩⟩)
    | ok q =>
      obtain ⟨e', r, hr⟩ := q
      cases r with
      | nil =>
        constructor
        · rintro ⟨⟩
          exact ⟨hr, rfl⟩
        · rintro ⟨_, ⟨⟩⟩
          rfl
      | cons t' rest' => exact iff_of_false (by rintro ⟨⟩) (by rintro ⟨_, ⟨⟩⟩)

lemma Expr.exists_tokens_of_parse (h : Expr.parse source = .ok e) :
    ∃ ts, ExprToken.tokenize source = .ok ts ∧ Reads (expression 0 ts) e [] := by
  cases htokens : ExprToken.tokenize source with
  | error err =>
    rw [Expr.parse, htokens] at h
    cases h
  | ok ts => exact ⟨ts, rfl, (Expr.parse_eq_ok_iff htokens).mp h⟩

/-- Reading expressions accepts exactly the grammar: a source whose tokens are `ts` is read as `e`
if and only if the grammar derives `e` from `ts`. No tokens derive two expressions. -/
theorem Expr.parse_recognizes_grammar :
    (∀ {source : String} {ts : List ExprToken}, ExprToken.tokenize source = .ok ts →
      ∀ e, Expr.parse source = .ok e ↔ Derives (.expression .conditional) ts e) ∧
    (∀ {ts : List ExprToken} {e e' : Expr}, Derives (.expression .conditional) ts e →
      Derives (.expression .conditional) ts e' → e = e') := by
  constructor
  · intro source ts htokens e
    rw [Expr.parse_eq_ok_iff htokens, reads_all_iff]
  · intro ts e e' h h'
    obtain ⟨_, hread⟩ := reads_all_iff.mpr h
    obtain ⟨_, hread'⟩ := reads_all_iff.mpr h'
    rw [hread] at hread'
    cases hread'
    rfl

/-- `a - b - c` is the difference of `a - b` and `c`, and not that of `a` and `b - c`. -/
theorem Expr.parse_recognizes_grammar_differences :
    ∃ ts, ExprToken.tokenize "a - b - c" = .ok ts ∧
      Derives (.expression .conditional) ts
        (.binary .subtract (.binary .subtract (.name "a") (.name "b")) (.name "c")) ∧
      Expr.parse "a - b - c" =
        .ok (.binary .subtract (.binary .subtract (.name "a") (.name "b")) (.name "c")) ∧
      ¬ Derives (.expression .conditional) ts
        (.binary .subtract (.name "a") (.binary .subtract (.name "b") (.name "c"))) := by
  have htokens : ExprToken.tokenize "a - b - c" =
      .ok [.name "a", .punct .minus, .name "b", .punct .minus, .name "c"] := by
    have hspaced : "a - b - c" = ExprToken.spaced
        [.name "a", .punct .minus, .name "b", .punct .minus, .name "c"] := by decide
    rw [hspaced, ExprToken.tokenize_spaced (by decide)]
  have hname : ∀ n ∉ reserved, ∀ l, Derives (.expression l) [.name n] (.name n) := fun n hn l =>
    (Derives.token (.name hn)).loosen_to (by cases l <;> decide)
  have hderives : Derives (.expression .conditional)
      [.name "a", .punct .minus, .name "b", .punct .minus, .name "c"]
      (.binary .subtract (.binary .subtract (.name "a") (.name "b")) (.name "c")) :=
    (Derives.join .subtract
      (.join .subtract (hname "a" (by decide) _) (hname "b" (by decide) _))
      (hname "c" (by decide) _)).loosen_to (by decide)
  refine ⟨_, htokens, hderives, (Expr.parse_recognizes_grammar.1 htokens _).mpr hderives, ?_⟩
  intro hother
  cases Expr.parse_recognizes_grammar.2 hderives hother

end LiveMarkup
