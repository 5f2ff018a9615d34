import LiveMarkup.Proofs.Paths

/-!
# Loop clauses have one reading

A clause is a source, which may be any text, and the names bound behind it: `items as item` or
`items as key => item`. The source taken is the shortest one behind which names are bound, so one
that itself contains ` as ` or `=>` might be taken too short. It never is, and the end of the clause
shows why: read backwards, it is a name, perhaps an arrow and another name, and the word `as`, with
no choice at any point.
-/

namespace LiveMarkup.Clause

open List Option Text

variable {b cs rest source names : List Char} {key : Option String} {item n : String}

def Blanks (b : List Char) : Prop :=
  ∀ c ∈ b, isBlank c = true

/-- A text that is not empty, with no blanks around it. -/
structure Trimmed (cs : List Char) : Prop where
  ne_nil : cs ≠ []
  head : ∀ c ∈ cs.head?, isBlank c = false
  last : ∀ c ∈ cs.getLast?, isBlank c = false

/-- The names of a loop as they are written: an item, or a key, an arrow and an item. -/
inductive Names : Option String → String → List Char → Prop
  | item {item : String} {b : List Char} (hitem : isName item.toList = true) (hb : Blanks b) :
      Names none item (item.toList ++ b)
  | keyed {key item : String} {b1 b2 b3 : List Char} (hkey : isName key.toList = true)
      (hitem : isName item.toList = true) (h1 : Blanks b1) (h2 : Blanks b2) (h3 : Blanks b3) :
      Names (some key) item (key.toList ++ (b1 ++ '=' :: '>' :: (b2 ++ (item.toList ++ b3))))

/-- The names of a loop behind the word that announces them. -/
inductive Binds (key : Option String) (item : String) : List Char → Prop
  | mk {b1 b2 names : List Char} (h1 : Blanks b1) (hne1 : b1 ≠ []) (h2 : Blanks b2) (hne2 : b2 ≠ [])
      (hnames : Names key item names) : Binds key item (b1 ++ 'a' :: 's' :: (b2 ++ names))

/-! ## Blanks and names -/

lemma isBlank_of_isNameRest (h : isNameRest c = true) : isBlank c = false :=
  isBlank_of_isPathChar (by rw [isPathChar, h]; rfl)

lemma isNameRest_of_isBlank (h : isBlank c = true) : isNameRest c = false := by
  refine Bool.eq_false_iff.mpr fun hname => ?_
  rw [isBlank_of_isNameRest hname] at h
  cases h

lemma exists_of_isName (h : isName cs = true) :
    ∃ c rest, cs = c :: rest ∧ isNameStart c = true ∧ ∀ d ∈ cs, isNameRest d = true := by
  cases cs with
  | nil => cases h
  | cons c rest =>
    rw [isName, Bool.and_eq_true, List.all_eq_true] at h
    exact ⟨c, rest, rfl, h.1, forall_mem_cons.mpr ⟨isNameRest_of_isNameStart h.1, h.2⟩⟩

lemma eq_append_of_skipBlanks? (h : skipBlanks? cs = some rest) :
    ∃ b, Blanks b ∧ b ≠ [] ∧ cs = b ++ rest := by
  cases cs with
  | nil => cases h
  | cons c cs =>
    rw [skipBlanks?, ite_none_right_eq_some, some.injEq] at h
    obtain ⟨hc, rfl⟩ := h
    refine ⟨c :: cs.takeWhile isBlank, ?_, cons_ne_nil _ _, ?_⟩
    · exact forall_mem_cons.mpr ⟨hc, fun d hd => mem_takeWhile_imp hd⟩
    · rw [cons_append, takeWhile_append_dropWhile]

lemma skipBlanks?_append (hb : Blanks b) (hne : b ≠ [])
    (hrest : ∀ c ∈ rest.head?, isBlank c = false) : skipBlanks? (b ++ rest) = some rest := by
  obtain ⟨c, b, rfl⟩ := exists_cons_of_ne_nil hne
  obtain ⟨hc, hb⟩ := forall_mem_cons.mp hb
  rw [cons_append, skipBlanks?, if_pos hc, (Token.takeWhile_append_of_all hb hrest).2]

lemma splitName_eq_some (h : splitName cs = some (names, rest)) :
    isName names = true ∧ cs = names ++ rest := by
  cases cs with
  | nil => cases h
  | cons c cs =>
    rw [splitName, ite_none_right_eq_some, some.injEq, Prod.mk.injEq] at h
    obtain ⟨hc, rfl, rfl⟩ := h
    refine ⟨?_, by rw [cons_append, takeWhile_append_dropWhile]⟩
    rw [isName, hc, Bool.true_and, List.all_eq_true]
    exact fun d hd => mem_takeWhile_imp hd

lemma splitName_append (hn : isName n.toList = true)
    (hrest : ∀ c ∈ rest.head?, isNameRest c = false) :
    splitName (n.toList ++ rest) = some (n.toList, rest) := by
  obtain ⟨c, cs, hcs, hc, hall⟩ := exists_of_isName hn
  rw [hcs] at hall ⊢
  obtain ⟨htake, hdrop⟩ := Token.takeWhile_append_of_all (forall_mem_cons.mp hall).2 hrest
  rw [cons_append, splitName, if_pos hc, htake, hdrop]

lemma head?_blanks (hb : Blanks b) (hrest : ∀ c ∈ rest.head?, isNameRest c = false) :
    ∀ c ∈ (b ++ rest).head?, isNameRest c = false := by
  intro c hc
  cases b with
  | nil => exact hrest c hc
  | cons d b =>
    cases hc
    exact isNameRest_of_isBlank (hb c mem_cons_self)

lemma splitName_blanks (hn : isName n.toList = true) (hb : Blanks b) :
    splitName (n.toList ++ b) = some (n.toList, b) := by
  refine splitName_append hn ?_
  rw [← append_nil b]
  exact head?_blanks hb nofun

lemma head?_name (hn : isName n.toList = true) :
    ∀ c ∈ (n.toList ++ rest).head?, isBlank c = false := by
  obtain ⟨c, cs, hcs, -, hall⟩ := exists_of_isName hn
  rw [hcs] at hall ⊢
  rintro d ⟨⟩
  exact isBlank_of_isNameRest (hall c mem_cons_self)

lemma lastName?_eq_some_iff :
    lastName? cs = some n ↔ isName n.toList = true ∧ ∃ b, Blanks b ∧ cs = n.toList ++ b := by
  constructor
  · intro h
    obtain ⟨⟨name, rest⟩, hsplit, hlast⟩ := bind_eq_some_iff.mp h
    obtain ⟨hname, rfl⟩ := splitName_eq_some hsplit
    rw [Option.ite_none_right_eq_some, Option.some.injEq, List.all_eq_true] at hlast
    obtain ⟨hrest, rfl⟩ := hlast
    rw [String.toList_ofList]
    exact ⟨hname, rest, hrest, rfl⟩
  · rintro ⟨hn, b, hb, rfl⟩
    have hall : b.all isBlank = true := all_eq_true.mpr hb
    simp only [lastName?, splitName_blanks hn hb, bind_eq_bind, bind_some, hall,
      if_true, String.ofList_toList]

lemma keyName?_eq_some (h : keyName? cs = some (n, rest)) :
    isName n.toList = true ∧ ∃ b1 b2, Blanks b1 ∧ Blanks b2 ∧
      cs = n.toList ++ (b1 ++ '=' :: '>' :: (b2 ++ rest)) := by
  obtain ⟨⟨name, more⟩, hsplit, hrest⟩ := bind_eq_some_iff.mp h
  obtain ⟨hname, rfl⟩ := splitName_eq_some hsplit
  dsimp only at hrest
  split at hrest
  next tail harrow =>
    cases hrest
    rw [String.toList_ofList]
    refine ⟨hname, more.takeWhile isBlank, tail.takeWhile isBlank,
      fun c hc => mem_takeWhile_imp hc, fun c hc => mem_takeWhile_imp hc, ?_⟩
    rw [takeWhile_append_dropWhile, ← harrow, takeWhile_append_dropWhile]
  next => cases hrest

lemma keyName?_append (hn : isName n.toList = true) (h1 : Blanks b1) (h2 : Blanks b2)
    (hrest : ∀ c ∈ rest.head?, isBlank c = false) :
    keyName? (n.toList ++ (b1 ++ '=' :: '>' :: (b2 ++ rest))) = some (n, rest) := by
  have harrow : ∀ c ∈ ('=' :: '>' :: (b2 ++ rest)).head?,
      isNameRest c = false ∧ isBlank c = false := by
    rintro c ⟨⟩
    decide
  have hsplit := splitName_append hn (head?_blanks h1 fun c hc => (harrow c hc).1)
  have hdrop := (Token.takeWhile_append_of_all h1 fun c hc => (harrow c hc).2).2
  simp [keyName?, hsplit, hdrop, (Token.takeWhile_append_of_all h2 hrest).2]

/-! ## The names of a loop -/

lemma keyName?_item (hb : Blanks b) (hn : isName n.toList = true) :
    keyName? (n.toList ++ b) = none := by
  have hdrop : b.dropWhile isBlank = [] := dropWhile_eq_nil_iff.mpr hb
  simp [keyName?, splitName_blanks hn hb, hdrop]

lemma binds_of_binding? (h : binding? cs = some (key, item)) : Binds key item cs := by
  obtain ⟨rest, hskip, hrest⟩ := bind_eq_some_iff.mp h
  obtain ⟨b1, h1, hne1, rfl⟩ := eq_append_of_skipBlanks? hskip
  split at hrest
  next more =>
    obtain ⟨names, hskip2, hnames⟩ := bind_eq_some_iff.mp hrest
    obtain ⟨b2, h2, hne2, rfl⟩ := eq_append_of_skipBlanks? hskip2
    refine .mk h1 hne1 h2 hne2 ?_
    rw [orElse_eq_orElse, orElse_eq_or] at hnames
    rcases or_eq_some_iff.mp hnames with hkeyed | ⟨-, hitem⟩
    · obtain ⟨⟨k, rest⟩, hkey, hkeyed⟩ := bind_eq_some_iff.mp hkeyed
      obtain ⟨i, hlast, heq⟩ := bind_eq_some_iff.mp hkeyed
      cases heq
      obtain ⟨hk, b3, b4, h3, h4, rfl⟩ := keyName?_eq_some hkey
      obtain ⟨hi, b5, h5, rfl⟩ := lastName?_eq_some_iff.mp hlast
      exact .keyed hk hi h3 h4 h5
    · obtain ⟨i, hlast, heq⟩ := map_eq_some_iff.mp hitem
      cases heq
      obtain ⟨hi, b3, h3, rfl⟩ := lastName?_eq_some_iff.mp hlast
      exact .item hi h3
  next => cases hrest

lemma Names.head? (h : Names key item cs) : ∀ c ∈ cs.head?, isBlank c = false := by
  cases h with
  | item hitem => exact head?_name hitem
  | keyed hkey => exact head?_name hkey

lemma Binds.binding? (h : Binds key item cs) : binding? cs = some (key, item) := by
  obtain ⟨h1, hne1, h2, hne2, hnames⟩ := h
  rw [binding?, skipBlanks?_append h1 hne1 (by rintro c ⟨⟩; decide)]
  simp only [bind_eq_bind, bind_some, skipBlanks?_append h2 hne2 hnames.head?]
  cases hnames with
  | item hitem hb =>
    simp [keyName?_item hb hitem, lastName?_eq_some_iff.mpr ⟨hitem, _, hb, rfl⟩]
  | keyed hkey hitem h1 h2 h3 =>
    simp [keyName?_append hkey h1 h2 (head?_name hitem),
      lastName?_eq_some_iff.mpr ⟨hitem, _, h3, rfl⟩]

/-! ## Reading backwards -/

def dropName (cs : List Char) : List Char :=
  ((cs.rdropWhile isBlank).rdropWhile isNameRest).rdropWhile isBlank

/-- What stands before the names that a text binds at its end. -/
def unbound (cs : List Char) : List Char :=
  let front := dropName cs
  let front := if ['=', '>'] <:+ front then dropName (front.rdrop 2) else front
  (front.rdrop 2).rdropWhile isBlank

lemma rdropWhile_append_of_all (hb : ∀ c ∈ b, p c = true) (hlast : ∀ c ∈ cs.getLast?, p c = false) :
    (cs ++ b).rdropWhile p = cs := by
  have hrev : ∀ c ∈ b.reverse, p c = true := by simpa using hb
  have hhead : ∀ c ∈ cs.reverse.head?, p c = false := by simpa using hlast
  rw [rdropWhile, reverse_append, (Token.takeWhile_append_of_all hrev hhead).2, reverse_reverse]

lemma dropName_append (hn : isName n.toList = true) (h1 : Blanks b1) (h2 : Blanks b2)
    (hlast : ∀ c ∈ cs.getLast?, isBlank c = false)
    (hbreak : ∀ c ∈ (cs ++ b1).getLast?, isNameRest c = false) :
    dropName (cs ++ b1 ++ n.toList ++ b2) = cs := by
  obtain ⟨c, rest, hcs, -, hall⟩ := exists_of_isName hn
  have hend : ∀ c ∈ (cs ++ b1 ++ n.toList).getLast?, isBlank c = false := by
    intro d hd
    rw [getLast?_append_of_ne_nil _ (by simp [hcs])] at hd
    exact isBlank_of_isNameRest (hall d (mem_of_getLast? hd))
  rw [dropName, rdropWhile_append_of_all h2 hend, rdropWhile_append_of_all hall hbreak,
    rdropWhile_append_of_all h1 hlast]

lemma not_isNameRest_last (hb : Blanks b) (hne : b ≠ []) :
    ∀ c ∈ (cs ++ b).getLast?, isNameRest c = false := by
  intro c hc
  rw [getLast?_append_of_ne_nil _ hne] at hc
  exact isNameRest_of_isBlank (hb c (mem_of_getLast? hc))

lemma unbound_append (hlast : ∀ c ∈ source.getLast?, isBlank c = false)
    (h : Binds key item rest) : unbound (source ++ rest) = source := by
  obtain @⟨b1, b2, names, h1, hne1, h2, hne2, hnames⟩ := h
  have hrdrop (cs : List Char) (c d : Char) : (cs ++ [c, d]).rdrop 2 = cs := rdrop_append_length
  have hlast2 {cs : List Char} {c d : Char} (hd : isBlank d = false) :
      ∀ x ∈ (cs ++ [c, d]).getLast?, isBlank x = false := by
    simpa using hd
  have hname {n : String} {b : List Char} (hn : isName n.toList = true) (hb : Blanks b) :
      dropName (source ++ b1 ++ ['a', 's'] ++ b2 ++ n.toList ++ b) = source ++ b1 ++ ['a', 's'] :=
    dropName_append hn h2 hb (hlast2 (by decide)) (not_isNameRest_last h2 hne2)
  have hsource : ((source ++ b1 ++ ['a', 's']).rdrop 2).rdropWhile isBlank = source := by
    rw [hrdrop, rdropWhile_append_of_all h1 hlast]
  cases hnames with
  | @item _ b3 hitem h3 =>
    have hcs : source ++ (b1 ++ 'a' :: 's' :: (b2 ++ (item.toList ++ b3))) =
        source ++ b1 ++ ['a', 's'] ++ b2 ++ item.toList ++ b3 := by simp
    have harrow : ¬ ['=', '>'] <:+ source ++ b1 ++ ['a', 's'] := by
      rintro ⟨front, hfront⟩
      simpa using congrArg getLast? hfront
    rw [hcs, unbound, hname hitem h3, if_neg harrow, hsource]
  | @keyed k _ b3 b4 b5 hkey hitem h3 h4 h5 =>
    have hcs : source ++ (b1 ++ 'a' :: 's' :: (b2 ++ (k.toList ++ (b3 ++ '=' :: '>' ::
        (b4 ++ (item.toList ++ b5)))))) =
        source ++ b1 ++ ['a', 's'] ++ b2 ++ k.toList ++ b3 ++ ['=', '>'] ++ b4 ++ item.toList ++
          b5 := by simp
    have hbreak : ∀ c ∈ (source ++ b1 ++ ['a', 's'] ++ b2 ++ k.toList ++ b3 ++ ['=', '>'] ++
        b4).getLast?, isNameRest c = false := by
      by_cases hne4 : b4 = []
      · rw [hne4, append_nil, getLast?_append_of_ne_nil _ (cons_ne_nil _ _)]
        rintro c ⟨⟩
        decide
      · exact not_isNameRest_last h4 hne4
    rw [hcs, unbound, dropName_append hitem h4 h5 (hlast2 (by decide)) hbreak,
      if_pos (suffix_append _ _), hrdrop, hname hkey h3, hsource]

/-! ## The clause -/

/-- No part of a source that stops short of its end has names bound behind it. -/
lemma binding?_eq_none (hne : source ≠ []) (hlast : ∀ c ∈ source.getLast?, isBlank c = false)
    (h : Binds key item rest) : binding? (source ++ rest) = none := by
  refine eq_none_iff_forall_not_mem.mpr ?_
  rintro ⟨key', item'⟩ hbinding
  have hnil : unbound ([] ++ (source ++ rest)) = [] :=
    unbound_append (by simp) (binds_of_binding? hbinding)
  rw [nil_append, unbound_append hlast h] at hnil
  exact hne hnil

lemma loopFrom?_append (h : Binds key item rest) (hne : source ≠ [])
    (hlast : ∀ c ∈ source.getLast?, isBlank c = false) (taken : List Char) :
    loopFrom? taken (source ++ rest) =
      some ⟨String.ofList (taken.reverse ++ source), key, item⟩ := by
  induction source generalizing taken with
  | nil => exact absurd rfl hne
  | cons c source ih =>
    rw [cons_append, loopFrom?]
    by_cases hsource : source = []
    · rw [hsource, nil_append, h.binding?, reverse_cons]
    · rw [getLast?_cons_of_ne_nil hsource] at hlast
      rw [binding?_eq_none hsource hlast h]
      simpa using ih hsource hlast (c :: taken)

/-- A clause is read as it was written, whatever its source contains. -/
theorem loop?_reads_clause {source b rest : List Char} {key : Option String} {item : String}
    (hsource : Trimmed source) (hb : Blanks b) (h : Binds key item rest) :
    loop? (String.ofList (b ++ source ++ rest)) = some ⟨String.ofList source, key, item⟩ := by
  have hhead : ∀ c ∈ (source ++ rest).head?, isBlank c = false := by
    rw [head?_append_of_ne_nil _ hsource.ne_nil]
    exact hsource.head
  have hread := loopFrom?_append h hsource.ne_nil hsource.last []
  rw [loop?, String.toList_ofList, append_assoc, (Token.takeWhile_append_of_all hb hhead).1]
  cases hlength : b.length with
  | zero =>
    rw [eq_nil_of_length_eq_zero hlength]
    exact hread
  | succ k =>
    rw [loopBehind?, ← hlength, drop_left, hread]
    rfl

theorem loop?_reads_clause_nested :
    Trimmed "x as y".toList ∧ Blanks [' '] ∧ Binds (some "as") "z" " as as=> z".toList ∧
      loop? " x as y as as=> z" = some ⟨"x as y", some "as", "z"⟩ := by
  have hsource : Trimmed "x as y".toList :=
    ⟨by decide, by rintro c ⟨⟩; decide, by rintro c ⟨⟩; decide⟩
  have hb : Blanks [' '] := all_eq_true.mp (by decide)
  have hnone : Blanks [] := forall_mem_nil _
  have hnames : Names (some "as") "z" "as=> z".toList := .keyed rfl rfl hnone hb hnone
  have hbinds : Binds (some "as") "z" " as as=> z".toList :=
    .mk hb (cons_ne_nil _ _) hb (cons_ne_nil _ _) hnames
  have hread := loop?_reads_clause hsource hb hbinds
  have hclause : String.ofList ([' '] ++ "x as y".toList ++ " as as=> z".toList) =
      " x as y as as=> z" := by decide
  rw [hclause, String.ofList_toList] at hread
  exact ⟨hsource, hb, hbinds, hread⟩

end LiveMarkup.Clause
