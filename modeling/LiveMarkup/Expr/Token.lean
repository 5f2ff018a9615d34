import LiveMarkup.Decimal.Read
import LiveMarkup.Expr.Basic
import LiveMarkup.Text.Blank
import LiveMarkup.Text.Letter

/-!
# Tokens of expressions

Numbers, quoted texts, names and punctuation, with blanks between them. A number takes digits and
points as far as they go, and one exponent; whether the result is a number is decided afterwards.
A quoted text may use any of three quotes, and a backslash takes the next character as it is, save
for the usual letters. Of two punctuation marks that fit, the longer one is meant.
-/

namespace LiveMarkup

inductive Punct where
  | strictEqual
  | strictNotEqual
  | looseEqual
  | looseNotEqual
  | lessEqual
  | greaterEqual
  | andAnd
  | orOr
  | nullish
  | plus
  | minus
  | star
  | slash
  | percent
  | less
  | greater
  | bang
  | question
  | colon
  | dot
  | comma
  | parenOpen
  | parenClose
  | bracketOpen
  | bracketClose
  | braceOpen
  | braceClose
deriving DecidableEq

namespace Punct

def text : Punct → String
  | .strictEqual => "==="
  | .strictNotEqual => "!=="
  | .looseEqual => "=="
  | .looseNotEqual => "!="
  | .lessEqual => "<="
  | .greaterEqual => ">="
  | .andAnd => "&&"
  | .orOr => "||"
  | .nullish => "??"
  | .plus => "+"
  | .minus => "-"
  | .star => "*"
  | .slash => "/"
  | .percent => "%"
  | .less => "<"
  | .greater => ">"
  | .bang => "!"
  | .question => "?"
  | .colon => ":"
  | .dot => "."
  | .comma => ","
  | .parenOpen => "("
  | .parenClose => ")"
  | .bracketOpen => "["
  | .bracketClose => "]"
  | .braceOpen => "\x7b"
  | .braceClose => "\x7d"

/-- All marks, longer ones first. -/
def all : List Punct :=
  [.strictEqual, .strictNotEqual, .looseEqual, .looseNotEqual, .lessEqual, .greaterEqual, .andAnd,
    .orOr, .nullish, .plus, .minus, .star, .slash, .percent, .less, .greater, .bang, .question,
    .colon, .dot, .comma, .parenOpen, .parenClose, .bracketOpen, .bracketClose, .braceOpen,
    .braceClose]

def atStart? (cs : List Char) : Option Punct :=
  all.find? fun p => p.text.toList.isPrefixOf cs

end Punct

inductive ExprToken where
  | number (x : Float)
  | text (s : String)
  | name (n : String)
  | punct (p : Punct)

namespace ExprToken

def describe : ExprToken → String
  | .number x => Decimal.plainText x
  | .text s => "\"" ++ s ++ "\""
  | .name n => n
  | .punct p => p.text

def isNameStart (c : Char) : Bool :=
  Text.isAlphabetic c || c == '_' || c == '$'

def isNameRest (c : Char) : Bool :=
  Text.isAlphanumeric c || c == '_' || c == '$'

/-- Splits off the rest of a number, given the character before and whether an exponent was
seen. A sign belongs to the number only right behind the exponent mark. -/
def splitNumber (seenExp : Bool) (before : Char) : List Char → List Char × List Char
  | [] => ([], [])
  | c :: cs =>
    let signed := (c == '+' || c == '-') && seenExp && (before == 'e' || before == 'E')
    if c.isDigit || c == '.' || signed then
      let r := splitNumber seenExp c cs
      (c :: r.1, r.2)
    else if (c == 'e' || c == 'E') && !seenExp then
      let r := splitNumber true c cs
      (c :: r.1, r.2)
    else ([], c :: cs)

def unescape : Char → Char
  | 'n' => '\n'
  | 't' => '\t'
  | 'r' => '\r'
  | '0' => '\x00'
  | c => c

def splitText (quote : Char) : List Char → Option (List Char × List Char)
  | [] => none
  | ['\\'] => none
  | '\\' :: c :: cs => (splitText quote cs).map fun r => (unescape c :: r.1, r.2)
  | c :: cs =>
    if c == quote then some ([], cs) else (splitText quote cs).map fun r => (c :: r.1, r.2)

def byteSize (cs : List Char) : Nat :=
  cs.foldr (fun c n => c.utf8Size + n) 0

/-- The token at the start of `c :: cs`, if it is not a blank, and what follows it. `total` is the
size of the whole source, for the offset of an error. -/
def next (total : Nat) (c : Char) (cs : List Char) :
    Except ExprError (Option ExprToken × List Char) :=
  if Text.isBlank c then .ok (none, cs)
  else if c.isDigit || (c == '.' && (cs.head?.any Char.isDigit)) then
    let r := splitNumber false c cs
    match Decimal.readDigits (c :: r.1) with
    | some x => .ok (some (.number x), r.2)
    | none => .error (.unexpectedToken (String.ofList (c :: r.1)) "a number")
  else if c == '\'' || c == '"' || c == '`' then
    match splitText c cs with
    | some r => .ok (some (.text (String.ofList r.1)), r.2)
    | none => .error .unterminatedString
  else if isNameStart c then
    .ok (some (.name (String.ofList (c :: cs.takeWhile isNameRest))), cs.dropWhile isNameRest)
  else
    match Punct.atStart? (c :: cs) with
    | some p => .ok (some (.punct p), cs.drop (p.text.length - 1))
    | none => .error (.unexpectedChar c (total - byteSize (c :: cs)))

theorem splitNumber_length (seenExp : Bool) (before : Char) (cs : List Char) :
    (splitNumber seenExp before cs).2.length ≤ cs.length := by
  induction cs generalizing seenExp before with
  | nil => simp [splitNumber]
  | cons c cs ih =>
    simp only [splitNumber]
    split
    · exact Nat.le_succ_of_le (ih _ _)
    · split
      · exact Nat.le_succ_of_le (ih _ _)
      · exact Nat.le_refl _

theorem splitText_length {quote : Char} {cs : List Char} {r : List Char × List Char}
    (h : splitText quote cs = some r) : r.2.length ≤ cs.length := by
  fun_induction splitText quote cs generalizing r with
  | case1 => simp at h
  | case2 => simp at h
  | case3 c cs ih =>
    obtain ⟨u, hu, rfl⟩ := Option.map_eq_some_iff.1 h
    have := ih hu
    simp only [List.length_cons]
    omega
  | case4 c cs _ _ hc =>
    simp only [Option.some.injEq] at h
    subst h
    simp
  | case5 c cs _ _ hc ih =>
    obtain ⟨u, hu, rfl⟩ := Option.map_eq_some_iff.1 h
    have := ih hu
    simp only [List.length_cons]
    omega

/-- Every step uses up at least one character. -/
theorem next_length {total : Nat} {c : Char} {cs : List Char}
    {r : Option ExprToken × List Char} (h : next total c cs = .ok r) :
    r.2.length ≤ cs.length := by
  unfold next at h
  split at h
  · cases h; exact Nat.le_refl _
  · split at h
    · dsimp only at h
      split at h
      · cases h; exact splitNumber_length ..
      · cases h
    · split at h
      · split at h
        · rename_i r hr
          cases h
          exact splitText_length hr
        · cases h
      · split at h
        · cases h
          exact (List.dropWhile_suffix _).length_le
        · split at h
          · cases h
            simp
          · cases h

def scan (total : Nat) : List Char → Except ExprError (List ExprToken)
  | [] => .ok []
  | c :: cs =>
    match h : next total c cs with
    | .error e => .error e
    | .ok r =>
      have : r.2.length < (c :: cs).length := Nat.lt_succ_of_le (next_length h)
      match scan total r.2 with
      | .error e => .error e
      | .ok ts => .ok (r.1.toList ++ ts)
termination_by cs => cs.length
decreasing_by exact this

def tokenize (source : String) : Except ExprError (List ExprToken) :=
  scan source.utf8ByteSize source.toList

end ExprToken

end LiveMarkup
