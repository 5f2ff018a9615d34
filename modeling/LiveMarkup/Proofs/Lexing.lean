import LiveMarkup.Expr.Token
import Mathlib.Tactic.Lemma

/-!
# Written tokens are read back

Tokens are written with a blank between them: numbers in the plain layout, texts in double quotes
with a backslash before quotes and backslashes, names and marks as they are. The blank is what
makes reading them local: `LexesTo` says that a text is read as one token whatever stands behind a
blank after it, there is one lemma for each kind of token, and `tokenize_spaced` folds them along
the list.

That a blank ends a name has to be read off the table of letters: none of them is a blank.
-/

namespace LiveMarkup

open List Text Decimal
open Char (isDigit)

variable {rest cs ds : List Char} {c : Char} {total : Nat} {ts : List ExprToken} {seenExp : Bool}

/-! ## Letters and blanks -/

namespace Text

/-- The blanks that are not ASCII. -/
def wideBlanks : List Nat :=
  [0x85, 0xA0, 0x1680, 0x2000, 0x2001, 0x2002, 0x2003, 0x2004, 0x2005, 0x2006, 0x2007, 0x2008,
    0x2009, 0x200A, 0x2028, 0x2029, 0x202F, 0x205F, 0x3000]

lemma mem_wideBlanks (h : isBlank c = true) (hwide : ¬ c.toNat < 0x80) : c.toNat ∈ wideBlanks := by
  simp only [isBlank, Bool.or_eq_true, Bool.and_eq_true, decide_eq_true_eq, beq_iff_eq] at h
  simp only [wideBlanks, mem_cons, not_mem_nil, or_false]
  omega

-- The table is only evaluated here, at the nineteen code points.
lemma not_alphabetic_wideBlanks :
    (wideBlanks.all fun n => !CharSet.reaches false alphabetic.runs n) = true := by
  decide +kernel

lemma isDigit_iff : c.isDigit = true ↔ 48 ≤ c.toNat ∧ c.toNat ≤ 57 := by
  show (decide (c.val ≥ 48) && decide (c.val ≤ 57)) = true ↔ _
  simp [UInt32.le_iff_toNat_le, ← Char.toNat_val]

lemma isAlpha_iff : c.isAlpha = true ↔
    (65 ≤ c.toNat ∧ c.toNat ≤ 90) ∨ (97 ≤ c.toNat ∧ c.toNat ≤ 122) := by
  show (decide (c.val ≥ 65 ∧ c.val ≤ 90) || decide (c.val ≥ 97) && decide (c.val ≤ 122)) = true ↔ _
  simp [UInt32.le_iff_toNat_le, ← Char.toNat_val]

lemma isBlank_of_isDigit (h : c.isDigit = true) : isBlank c = false := by
  rw [isDigit_iff] at h
  simp only [isBlank, Bool.or_eq_false_iff, Bool.and_eq_false_iff, decide_eq_false_iff_not,
    beq_eq_false_iff_ne]
  omega

lemma isDigit_of_isAlphabetic (h : isAlphabetic c = true) : c.isDigit = false := by
  refine Bool.eq_false_iff.mpr fun hdigit => ?_
  rw [isDigit_iff] at hdigit
  rw [isAlphabetic, if_pos (by omega), isAlpha_iff] at h
  omega

lemma isBlank_of_isAlphabetic (h : isAlphabetic c = true) : isBlank c = false := by
  refine Bool.eq_false_iff.mpr fun hblank => ?_
  rw [isAlphabetic] at h
  split at h
  next hascii =>
    rw [isAlpha_iff] at h
    simp only [isBlank, Bool.or_eq_true, Bool.and_eq_true, decide_eq_true_eq, beq_iff_eq] at hblank
    omega
  next hwide =>
    have hout := all_eq_true.mp not_alphabetic_wideBlanks _ (mem_wideBlanks hblank hwide)
    rw [CharSet.contains] at h
    simp [h] at hout

end Text

/-! ## Writing tokens -/

namespace ExprToken

def escaped (c : Char) : List Char :=
  if c == '"' || c == '\\' then ['\\', c] else [c]

def quoted (s : String) : String :=
  String.ofList ('"' :: (s.toList.flatMap escaped ++ ['"']))

def written : ExprToken → String
  | .number x => plainText x
  | .text s => quoted s
  | .name n => n
  | .punct p => p.text

def spaced (ts : List ExprToken) : String :=
  " ".intercalate (ts.map written)

def isName (n : String) : Bool :=
  match n.toList with
  | [] => false
  | c :: cs => isNameStart c && cs.all isNameRest

/-- Tokens that a text can stand for. Numbers have to survive being written and read; as tokens
they have no sign. -/
def Legible : ExprToken → Prop
  | .number x => readUnsigned (plainText x).toList = some x
  | .text _ => True
  | .name n => isName n = true
  | .punct _ => True

instance : DecidablePred Legible
  | .number x =>
    inferInstanceAs (Decidable (readUnsigned (plainText x).toList = some x))
  | .text _ => inferInstanceAs (Decidable True)
  | .name n => inferInstanceAs (Decidable (isName n = true))
  | .punct _ => inferInstanceAs (Decidable True)

/-! ## One token -/

/-- What may stand behind a token: nothing, or a blank. -/
def Breaks (rest : List Char) : Prop :=
  ∀ c ∈ rest.head?, c = ' '

lemma breaks_nil : Breaks [] := nofun

lemma breaks_blank (rest : List Char) : Breaks (' ' :: rest) := by
  intro c hc
  cases hc
  rfl

/-- The characters are read as the token, whatever stands behind a blank after them. -/
def LexesTo (text : List Char) (t : ExprToken) : Prop :=
  ∃ c cs, text = c :: cs ∧
    ∀ total rest, Breaks rest → next total c (cs ++ rest) = .ok (some t, rest)

lemma scan_nil (total : Nat) : scan total [] = .ok [] := by
  rw [scan.eq_def]

lemma scan_cons (hnext : next total c cs = .ok (t, rest)) (hrest : scan total rest = .ok ts) :
    scan total (c :: cs) = .ok (t.toList ++ ts) := by
  rw [scan.eq_def]
  dsimp only
  split
  next h =>
    rw [hnext] at h
    cases h
  next h =>
    rw [hnext] at h
    cases h
    rw [hrest]

/-! ### Names and marks -/

lemma isNameRest_blank : isNameRest ' ' = false := by
  decide

lemma takeWhile_break (hp : p ' ' = false) (hcs : ∀ c ∈ cs, p c = true) (hrest : Breaks rest) :
    (cs ++ rest).takeWhile p = cs ∧ (cs ++ rest).dropWhile p = rest := by
  rw [takeWhile_append_of_pos hcs, dropWhile_append_of_pos hcs]
  cases rest with
  | nil => simp
  | cons c rest =>
    cases hrest c rfl
    simp [hp]

lemma next_of_isNameStart (hc : isNameStart c = true) : next total c cs =
      .ok (some (.name (String.ofList (c :: cs.takeWhile isNameRest))), cs.dropWhile isNameRest) := by
  have hother : isBlank c = false ∧ c.isDigit = false ∧ (c == '.') = false ∧
      (c == '\'') = false ∧ (c == '"') = false ∧ (c == '`') = false := by
    simp only [isNameStart, Bool.or_eq_true, beq_iff_eq] at hc
    rcases hc with (halpha | rfl) | rfl
    · have hne : ∀ d : Char, isAlphabetic d = false → (c == d) = false := by
        intro d hd
        refine beq_eq_false_iff_ne.mpr ?_
        rintro rfl
        rw [halpha] at hd
        cases hd
      exact ⟨isBlank_of_isAlphabetic halpha, isDigit_of_isAlphabetic halpha,
        hne _ (by decide), hne _ (by decide), hne _ (by decide), hne _ (by decide)⟩
    · decide
    · decide
  obtain ⟨hblank, hdigit, hdot, hquote, hquotes, hback⟩ := hother
  simp only [next, hblank, hdigit, hdot, hquote, hquotes, hback, hc, Bool.false_and, Bool.or_false,
    Bool.false_eq_true, if_false, if_true]

lemma lexesTo_name (h : isName n = true) : LexesTo n.toList (.name n) := by
  rw [isName] at h
  split at h
  next => cases h
  next c cs hn =>
    rw [Bool.and_eq_true, all_eq_true] at h
    refine ⟨c, cs, hn, fun total rest hrest => ?_⟩
    obtain ⟨htake, hdrop⟩ := takeWhile_break isNameRest_blank h.2 hrest
    rw [next_of_isNameStart h.1, htake, hdrop, ← hn, String.ofList_toList]

lemma isPrefixOf_break {q : List Char} (hq : ' ' ∉ q) (hrest : Breaks rest) :
    q.isPrefixOf (cs ++ rest) = q.isPrefixOf cs := by
  induction cs generalizing q with
  | nil =>
    cases q with
    | nil => simp
    | cons d q =>
      cases rest with
      | nil => rfl
      | cons c rest =>
        cases hrest c rfl
        have hd : (d == ' ') = false := beq_eq_false_iff_ne.mpr fun heq => hq (heq ▸ .head _)
        simp [isPrefixOf, hd]
  | cons c cs ih =>
    cases q with
    | nil => simp
    | cons d q =>
      rw [cons_append, isPrefixOf_cons_cons, isPrefixOf_cons_cons, ih fun hmem => hq (.tail _ hmem)]

lemma atStart?_text {p : Punct} (hrest : Breaks rest) :
    Punct.atStart? (p.text.toList ++ rest) = some p := by
  have hblank : ∀ q : Punct, ' ' ∉ q.text.toList := by
    intro q
    cases q <;> decide
  have hfind : Punct.all.find? (fun q => q.text.toList.isPrefixOf p.text.toList) = some p := by
    cases p <;> decide
  simpa only [Punct.atStart?, isPrefixOf_break (hblank _) hrest] using hfind

lemma lexesTo_punct (p : Punct) : LexesTo p.text.toList (.punct p) := by
  obtain ⟨c, cs, htext, hblank, hdigit, hdot, hquote, hquotes, hback, hname⟩ :
      ∃ c cs, p.text.toList = c :: cs ∧ isBlank c = false ∧ c.isDigit = false ∧
        ((c == '.') = true → cs = []) ∧ (c == '\'') = false ∧ (c == '"') = false ∧
        (c == '`') = false ∧ isNameStart c = false := by
    cases p <;> exact ⟨_, _, rfl, by decide⟩
  refine ⟨c, cs, htext, fun total rest hrest => ?_⟩
  have hnumber : (c == '.' && (cs ++ rest).head?.any isDigit) = false := by
    cases hc : c == '.' with
    | false => rfl
    | true =>
      rw [hdot hc]
      cases rest with
      | nil => rfl
      | cons d rest =>
        cases hrest d rfl
        rfl
  have hlength : p.text.length = cs.length + 1 := by
    rw [← String.length_toList, htext, length_cons]
  have hstart := atStart?_text (p := p) hrest
  rw [htext, cons_append] at hstart
  simp only [next, hblank, hdigit, hnumber, hquote, hquotes, hback, hname, hstart, hlength,
    Bool.or_false, Bool.false_eq_true, if_false, Nat.add_sub_cancel, drop_left]

/-! ### Quoted texts -/

lemma splitText_escaped (cs rest : List Char) :
    splitText '"' (cs.flatMap escaped ++ '"' :: rest) = some (cs, rest) := by
  induction cs with
  | nil => rfl
  | cons c cs ih =>
    rw [flatMap_cons, append_assoc, escaped]
    split
    next h =>
      -- the backslash is dropped and the character behind it stays
      have hsame : unescape c = c := by
        simp only [Bool.or_eq_true, beq_iff_eq] at h
        rcases h with rfl | rfl <;> rfl
      show (splitText '"' (cs.flatMap escaped ++ '"' :: rest)).map _ = _
      rw [ih, Option.map_some, hsame]
    next h =>
      simp only [Bool.or_eq_true, beq_iff_eq, not_or] at h
      rw [singleton_append, splitText]
      · rw [if_neg (by simpa using h.1), ih, Option.map_some]
      · simp [h.2]
      · simp [h.2]

lemma lexesTo_text (s : String) : LexesTo (quoted s).toList (.text s) := by
  refine ⟨'"', s.toList.flatMap escaped ++ ['"'], String.toList_ofList, fun total rest _ => ?_⟩
  have hsplit := splitText_escaped s.toList rest
  have hquote : isBlank '"' = false := by decide
  simp [next, hquote, hsplit]

/-! ### Numbers -/

lemma splitNumber_break (hrest : Breaks rest) : splitNumber seenExp before rest = ([], rest) := by
  cases rest with
  | nil => rfl
  | cons c rest =>
    cases hrest c rfl
    rfl

lemma splitNumber_digits (hds : ∀ d ∈ ds, d.isDigit = true ∨ d = '.') (before : Char)
    (more : List Char) : ∃ before', splitNumber seenExp before (ds ++ more) =
      (ds ++ (splitNumber seenExp before' more).1, (splitNumber seenExp before' more).2) := by
  induction ds generalizing before with
  | nil => exact ⟨before, rfl⟩
  | cons d ds ih =>
    obtain ⟨before', htail⟩ := ih (fun d hd => hds d (.tail _ hd)) d
    have hd : (d.isDigit || d == '.') = true := by
      simpa using hds d (.head _)
    refine ⟨before', ?_⟩
    rw [cons_append, splitNumber, htail]
    simp only [hd, Bool.true_or, if_true, cons_append]

lemma splitNumber_all (hds : ∀ d ∈ ds, d.isDigit = true) (hrest : Breaks rest) (before : Char) :
    splitNumber seenExp before (ds ++ rest) = (ds, rest) := by
  obtain ⟨before', htail⟩ := splitNumber_digits (fun d hd => .inl (hds d hd)) before rest
  rw [htail, splitNumber_break hrest, append_nil]

lemma takeSign_eq (h : takeSign cs = (negative, ds)) :
    cs = '-' :: ds ∨ cs = '+' :: ds ∨ cs = ds := by
  unfold takeSign at h
  split at h <;> cases h <;> simp

/-- An exponent belongs to the number in front of it, with its sign. -/
lemma splitNumber_exponent (hex : readExponent ex = some k) (hrest : Breaks rest) (before : Char) :
    splitNumber false before (ex ++ rest) = (ex, rest) := by
  cases ex with
  | nil => exact splitNumber_break hrest
  | cons c tail =>
    obtain ⟨negative, ds, hsign⟩ : ∃ negative ds, takeSign tail = (negative, ds) := ⟨_, _, rfl⟩
    simp only [readExponent, hsign] at hex
    split at hex
    next hmark =>
      split at hex
      next => cases hex
      next hds =>
        simp only [Bool.or_eq_true, Bool.not_eq_true', not_or, Bool.not_eq_false,
          all_eq_true] at hds
        have hno : (c.isDigit || c == '.' || ((c == '+' || c == '-') && false &&
            (before == 'e' || before == 'E'))) = false := by
          simp only [Bool.or_eq_true, beq_iff_eq] at hmark
          rcases hmark with rfl | rfl <;> rfl
        have htail : splitNumber true c (tail ++ rest) = (tail, rest) := by
          rcases takeSign_eq hsign with rfl | rfl | rfl
          · rw [cons_append, splitNumber, splitNumber_all hds.2 hrest]
            simp [hmark]
          · rw [cons_append, splitNumber, splitNumber_all hds.2 hrest]
            simp [hmark]
          · exact splitNumber_all hds.2 hrest c
        rw [cons_append, splitNumber, htail]
        simp only [hno, hmark, Bool.not_false, Bool.and_self, Bool.false_eq_true, if_false, if_true]
    next => cases hex

/-- A number without sign starts with a digit, or with a point and a digit, and goes on with digits
and points up to its exponent. -/
lemma readUnsigned_shape (h : readUnsigned cs = some x) :
    ∃ c ds ex k, cs = c :: (ds ++ ex) ∧ readExponent ex = some k ∧
      (c.isDigit = true ∨ c = '.' ∧ ds.head?.any isDigit = true) ∧
      ∀ d ∈ ds, d.isDigit = true ∨ d = '.' := by
  have hdigit : ∀ {l : List Char}, ∀ d ∈ l.takeWhile isDigit, d.isDigit = true :=
    fun {l} => all_eq_true.mp (all_takeWhile ..)
  have hcs := takeWhile_append_dropWhile (p := isDigit) (l := cs)
  have hwhole := @hdigit cs
  rw [readUnsigned] at h
  generalize cs.takeWhile isDigit = whole at h hcs hwhole
  generalize cs.dropWhile isDigit = rest at h hcs
  subst hcs
  split at h
  next frac ex hsplit =>
    split at h
    next => cases h
    next hsome =>
      obtain ⟨k, hk, -⟩ := Option.map_eq_some_iff.mp h
      split at hsplit
      next more =>
        cases hsplit
        have hfrac := @hdigit more
        have hmore := takeWhile_append_dropWhile (p := isDigit) (l := more)
        generalize more.takeWhile isDigit = frac at *
        generalize more.dropWhile isDigit = ex at *
        subst hmore
        cases whole with
        | nil =>
          cases frac with
          | nil => exact absurd rfl hsome
          | cons d frac =>
            exact ⟨'.', d :: frac, ex, k, rfl, hk, .inr ⟨rfl, hfrac d (.head _)⟩,
              fun d hd => .inl (hfrac d hd)⟩
        | cons c whole =>
          refine ⟨c, whole ++ '.' :: frac, ex, k, by simp, hk, .inl (hwhole c (.head _)), ?_⟩
          intro d hd
          rcases mem_append.mp hd with hd | hd
          · exact .inl (hwhole d (.tail _ hd))
          · rcases mem_cons.mp hd with rfl | hd
            · exact .inr rfl
            · exact .inl (hfrac d hd)
      next =>
        cases hsplit
        cases whole with
        | nil => exact absurd rfl hsome
        | cons c whole =>
          exact ⟨c, whole, rest, k, rfl, hk, .inl (hwhole c (.head _)),
            fun d hd => .inl (hwhole d (.tail _ hd))⟩

lemma lexesTo_number (h : readUnsigned cs = some x) : LexesTo cs (.number x) := by
  obtain ⟨c, ds, ex, k, rfl, hex, hc, hds⟩ := readUnsigned_shape h
  refine ⟨c, ds ++ ex, rfl, fun total rest hrest => ?_⟩
  have hsplit : splitNumber false c (ds ++ ex ++ rest) = (ds ++ ex, rest) := by
    obtain ⟨before', htail⟩ := splitNumber_digits hds c (ex ++ rest)
    rw [append_assoc, htail, splitNumber_exponent hex hrest]
  have hread : readDigits (c :: (ds ++ ex)) = some x := by
    have hsign : takeSign (c :: (ds ++ ex)) = (false, c :: (ds ++ ex)) := by
      unfold takeSign
      split
      next heq =>
        cases heq
        simp at hc
      next heq =>
        cases heq
        simp at hc
      next => rfl
    simp [readDigits, hsign, h]
  have hblank : isBlank c = false := by
    rcases hc with hc | ⟨rfl, -⟩
    · exact isBlank_of_isDigit hc
    · rfl
  have hstart : (c.isDigit || (c == '.' && (ds ++ ex ++ rest).head?.any isDigit)) = true := by
    rcases hc with hc | ⟨rfl, hhead⟩
    · simp [hc]
    · cases ds with
      | nil => cases hhead
      | cons d ds => simpa using hhead
  simp only [next, hblank, hstart, hsplit, hread, Bool.false_eq_true, if_false, if_true]

/-! ## All tokens -/

lemma lexesTo_written (h : t.Legible) : LexesTo t.written.toList t := by
  cases t with
  | number x => exact lexesTo_number h
  | text s => exact lexesTo_text s
  | name n => exact lexesTo_name h
  | punct p => exact lexesTo_punct p

lemma scan_append {text : List Char} (h : LexesTo text t) (hbreaks : Breaks rest)
    (hrest : scan total rest = .ok ts) : scan total (text ++ rest) = .ok (t :: ts) := by
  obtain ⟨c, cs, rfl, hnext⟩ := h
  exact scan_cons (hnext total rest hbreaks) hrest

lemma scan_blank (hrest : scan total rest = .ok ts) : scan total (' ' :: rest) = .ok ts :=
  scan_cons (t := none) rfl hrest

/-- Tokens with a blank between any two are read back. -/
lemma tokenize_spaced (h : ∀ t ∈ ts, t.Legible) : tokenize (spaced ts) = .ok ts := by
  rw [tokenize]
  generalize (spaced ts).utf8ByteSize = total
  induction ts with
  | nil => simp [spaced, scan_nil]
  | cons t ts ih =>
    have hlexes := lexesTo_written (h t (.head _))
    cases ts with
    | nil =>
      have hscan := scan_append hlexes breaks_nil (scan_nil total)
      simpa [spaced] using hscan
    | cons t' ts =>
      have hrest := ih fun t ht => h t (.tail _ ht)
      have hscan := scan_append hlexes (breaks_blank _) (scan_blank hrest)
      simpa [spaced, String.intercalate_cons_cons] using hscan

end ExprToken

end LiveMarkup
