import LiveMarkup.Decimal.Read

/-!
# TOML values

Settings are written in TOML. This module reads keys and values: texts in their four forms,
integers in four bases, floats, booleans, dates and times, arrays and inline tables. A reader takes
characters from the front of a text and gives none when they do not fit.
-/

namespace LiveMarkup

/-- A TOML value. Dates and times are only recognised; nothing here uses them. -/
inductive Toml where
  | text (s : String)
  | integer (n : Int)
  | float (x : Float)
  | bool (b : Bool)
  | moment
  | array (items : List Toml)
  | table (entries : List (String × Toml))
deriving Inhabited

namespace Toml

/-- A reader takes characters from the front of a text. -/
abbrev Reader := StateT (List Char) Option

def isSpace (c : Char) : Bool :=
  c == ' ' || c == '\t'

def skipSpace (cs : List Char) : List Char :=
  cs.dropWhile isSpace

/-- Characters that may stand in comments and texts: no control characters but the tab. -/
def isPrintable (c : Char) : Bool :=
  c == '\t' || (c.toNat ≥ 0x20 && c.toNat != 0x7F)

def newline? : List Char → Option (List Char)
  | '\n' :: cs => some cs
  | '\r' :: '\n' :: cs => some cs
  | _ => none

def skipComment (cs : List Char) : List Char :=
  match cs with
  | '#' :: rest => rest.dropWhile isPrintable
  | _ => cs

def skipLines : Nat → List Char → List Char
  | 0, cs => cs
  | n + 1, cs =>
    let cs := skipComment (skipSpace cs)
    match newline? cs with
    | some rest => skipLines n rest
    | none => cs

/-! ## Texts -/

def hexValue? (c : Char) : Option Nat :=
  if c.isDigit then some (c.toNat - '0'.toNat)
  else if 'a' ≤ c && c ≤ 'f' then some (c.toNat - 'a'.toNat + 10)
  else if 'A' ≤ c && c ≤ 'F' then some (c.toNat - 'A'.toNat + 10)
  else none

/-- The character with the code written in the next `n` hexadecimal digits. -/
def codePoint? (n : Nat) : Reader Char := do
  let cs ← get
  let some digits := (cs.take n).mapM hexValue? | failure
  let code := digits.foldl (16 * · + ·) 0
  guard (digits.length == n && code.isValidChar)
  set (cs.drop n)
  return Char.ofNat code

/-- Characters that are written as a letter behind a backslash. -/
def escapes : List (Char × Char) := [
  ('b', '\x08'), ('t', '\t'), ('n', '\n'), ('f', '\x0c'), ('r', '\r'), ('e', '\x1b'), ('"', '"'),
  ('\\', '\\')]

def escape? : Reader Char
  | 'x' :: cs => codePoint? 2 cs
  | 'u' :: cs => codePoint? 4 cs
  | 'U' :: cs => codePoint? 8 cs
  | c :: cs => (escapes.lookup c).map (·, cs)
  | [] => none

def basicText : Nat → Reader (List Char)
  | 0, _ => none
  | _ + 1, [] => none
  | _ + 1, '"' :: cs => some ([], cs)
  | n + 1, '\\' :: cs => (do return (← escape?) :: (← basicText n)) cs
  | n + 1, c :: cs => if isPrintable c then ((c :: ·) <$> basicText n) cs else none

def literalText : Reader (List Char)
  | [] => none
  | '\'' :: cs => some ([], cs)
  | c :: cs => if isPrintable c then (literalText cs).map fun (s, rest) => (c :: s, rest) else none

/-- The closing quotes of a text over several lines: three, with up to two more before them that
belong to the text. -/
def closing? (quote : Char) : Reader (List Char) := fun cs =>
  let run := cs.takeWhile (· == quote)
  if run.length < 3 then none
  else
    let extra := min (run.length - 3) 2
    some (List.replicate extra quote, cs.drop (extra + 3))

/-- The rest of a text over several lines. A backslash at the end of a line joins it with the next
one. -/
def longText (quote : Char) : Nat → Reader (List Char)
  | 0, _ => none
  | n + 1, cs =>
    let more (c : Char) := (c :: ·) <$> longText quote n
    match closing? quote cs, newline? cs, cs with
    | some r, _, _ => some r
    | none, some rest, _ => more '\n' rest
    | none, none, '\\' :: rest =>
      if quote == '\'' then more '\\' rest
      else
        match newline? (skipSpace rest) with
        | some rest => longText quote n (rest.dropWhile fun c => isSpace c || c == '\n' || c == '\r')
        | none => (escape? >>= more) rest
    | none, none, c :: rest => if isPrintable c then more c rest else none
    | none, none, [] => none

def skipFirstNewline (cs : List Char) : List Char :=
  (newline? cs).getD cs

def shortText? : Reader String
  | '"' :: cs => (String.ofList <$> basicText (cs.length + 1)) cs
  | '\'' :: cs => (String.ofList <$> literalText) cs
  | _ => none

def text? : Reader String
  | '"' :: '"' :: '"' :: cs =>
    (String.ofList <$> longText '"' (cs.length + 1)) (skipFirstNewline cs)
  | '\'' :: '\'' :: '\'' :: cs =>
    (String.ofList <$> longText '\'' (cs.length + 1)) (skipFirstNewline cs)
  | cs => shortText? cs

/-! ## Keys -/

def isBare (c : Char) : Bool :=
  c.isAlphanum || c == '_' || c == '-'

def simpleKey? : Reader String := fun cs =>
  let bare := cs.takeWhile isBare
  if bare.isEmpty then shortText? cs else some (String.ofList bare, cs.drop bare.length)

def key? : Nat → Reader (List String)
  | 0, _ => none
  | n + 1, cs => do
    let (k, rest) ← simpleKey? (skipSpace cs)
    match skipSpace rest with
    | '.' :: more =>
      let (ks, rest) ← key? n more
      some (k :: ks, rest)
    | rest => some ([k], rest)

/-! ## Numbers, dates and times -/

/-- Characters that numbers, booleans, dates and times are made of. -/
def isScalarChar (c : Char) : Bool :=
  c.isAlphanum || c == '_' || c == '-' || c == '+' || c == '.' || c == ':'

/-- Digits with single underscores between them; the underscores are dropped. -/
def digits? (isDigit : Char → Bool) : List Char → Option (List Char)
  | [] => none
  | [c] => if isDigit c then some [c] else none
  | c :: '_' :: cs => if isDigit c then (digits? isDigit cs).map (c :: ·) else none
  | c :: cs => if isDigit c then (digits? isDigit cs).map (c :: ·) else none

def decimal? (cs : List Char) : Option (List Char) := do
  match ← digits? Char.isDigit cs with
  | '0' :: _ :: _ => none
  | ds => some ds

def radix? (base : Nat) (cs : List Char) : Option Int := do
  let ds ← digits? (fun c => (hexValue? c).any (· < base)) cs
  let vs ← ds.mapM hexValue?
  return Int.ofNat (vs.foldl (base * · + ·) 0)

def signed? (digits? : List Char → Option (List Char)) (cs : List Char) : Option Int := do
  let (negative, ds) := Decimal.takeSign cs
  let n : Int := Decimal.digitsValue (← digits? ds)
  return if negative then -n else n

def integer? (cs : List Char) : Option Int := do
  let n ← match cs with
    | '0' :: 'x' :: ds => radix? 16 ds
    | '0' :: 'o' :: ds => radix? 8 ds
    | '0' :: 'b' :: ds => radix? 2 ds
    | _ => signed? decimal? cs
  if -Int.pow 2 127 ≤ n && n < Int.pow 2 128 then some n else none

/-- A float: a whole part, then a fraction or an exponent or both; or one of the named values. -/
def float? (cs : List Char) : Option Float := do
  let (negative, rest) := Decimal.takeSign cs
  let sign (x : Float) : Float := if negative then -x else x
  if rest == "inf".toList then return sign (1.0 / 0.0)
  if rest == "nan".toList then return sign (0.0 / 0.0)
  let isMark (c : Char) : Bool := c == 'e' || c == 'E'
  let whole ← decimal? (rest.takeWhile fun c => c != '.' && !isMark c)
  let rest := rest.dropWhile fun c => c != '.' && !isMark c
  let frac ← match rest with
    | '.' :: more => digits? Char.isDigit (more.takeWhile fun c => !isMark c)
    | _ => some []
  let rest := rest.dropWhile fun c => !isMark c
  let exp ← match rest with
    | [] => if frac.isEmpty then none else some 0
    | _ :: more => signed? (digits? Char.isDigit) more
  return sign (Decimal.nearest (Decimal.digitsValue (whole ++ frac)) (exp - frac.length))

/-- A run of exactly `n` digits with a value between `low` and `high`. -/
def field? (n low high : Nat) (cs : List Char) : Option (List Char) :=
  let ds := cs.take n
  let v := Decimal.digitsValue ds
  if ds.length == n && ds.all Char.isDigit && low ≤ v && v ≤ high then some (cs.drop n) else none

def date? (cs : List Char) : Option (List Char) := do
  let cs ← field? 4 0 9999 cs
  let '-' :: cs := cs | none
  let cs ← field? 2 1 12 cs
  let '-' :: cs := cs | none
  field? 2 1 31 cs

def time? (cs : List Char) : Option (List Char) := do
  let cs ← field? 2 0 23 cs
  let ':' :: cs := cs | none
  let cs ← field? 2 0 59 cs
  let ':' :: more := cs | some cs
  let cs ← field? 2 0 60 more
  let '.' :: frac := cs | some cs
  if frac.head?.any Char.isDigit then some (frac.dropWhile Char.isDigit) else none

def offset? : List Char → Option (List Char)
  | [] => some []
  | c :: cs =>
    if c == 'Z' || c == 'z' then some cs
    else if c == '+' || c == '-' then do
      let cs ← field? 2 0 23 cs
      let ':' :: cs := cs | none
      field? 2 0 59 cs
    else none

def isMoment (cs : List Char) : Bool :=
  time? cs == some [] ||
    match date? cs with
    | some [] => true
    | some (c :: rest) =>
      (c == 'T' || c == 't' || c == ' ') && ((time? rest).bind offset?) == some []
    | none => false

def scalar? : Reader Toml := fun cs =>
  let word := cs.takeWhile isScalarChar
  let rest := cs.drop word.length
  -- a date and a time may be set apart by a blank
  let long := word ++ ' ' :: (rest.drop 1).takeWhile isScalarChar
  if word == "true".toList then some (.bool true, rest)
  else if word == "false".toList then some (.bool false, rest)
  else if rest.head? == some ' ' && isMoment long then some (.moment, cs.drop long.length)
  else if isMoment word then some (.moment, rest)
  else
    match integer? word with
    | some n => some (.integer n, rest)
    | none => (float? word).map fun x => (.float x, rest)

/-! ## Values -/

/-- Adds an entry below a path of keys inside an inline table; every name is given once. -/
def insertPath (v : Toml) : List String → List (String × Toml) → Option (List (String × Toml))
  | [], _ => none
  | [k], entries => if (entries.lookup k).isSome then none else some (entries ++ [(k, v)])
  | k :: ks, entries =>
    match entries.lookup k with
    | none => (insertPath v ks []).map fun inner => entries ++ [(k, .table inner)]
    | some (.table inner) =>
      (insertPath v ks inner).map fun inner =>
        entries.map fun e => if e.1 == k then (k, .table inner) else e
    | some _ => none

mutual

def value? : Nat → Reader Toml
  | 0, _ => none
  | n + 1, cs =>
    match cs with
    | '[' :: rest => (.array <$> items? n) (skipLines rest.length rest)
    | '\x7b' :: rest => (.table <$> entries? n []) (skipLines rest.length rest)
    | _ => (Toml.text <$> text? <|> scalar?) cs

def items? : Nat → Reader (List Toml)
  | 0, _ => none
  | n + 1, cs =>
    match cs with
    | ']' :: rest => some ([], rest)
    | _ => do
      let (v, rest) ← value? n cs
      match skipLines rest.length rest with
      | ',' :: more =>
        let (vs, rest) ← items? n (skipLines more.length more)
        some (v :: vs, rest)
      | ']' :: rest => some ([v], rest)
      | _ => none

def entries? : Nat → List (String × Toml) → Reader (List (String × Toml))
  | 0, _, _ => none
  | n + 1, entries, cs =>
    match cs with
    | '\x7d' :: rest => some (entries, rest)
    | _ => do
      let (path, rest) ← key? cs.length cs
      let '=' :: rest := rest | none
      let (v, rest) ← value? n (skipSpace rest)
      let entries ← insertPath v path entries
      match skipLines rest.length rest with
      | ',' :: more => entries? n entries (skipLines more.length more)
      | '\x7d' :: rest => some (entries, rest)
      | _ => none

end

end Toml

end LiveMarkup
