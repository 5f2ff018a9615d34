import LiveMarkup.Decimal.Layout

/-!
# Reading numbers

The written form of a number: an optional sign, digits with at most one point among them and at
least one digit, and an optional exponent. The value is the nearest representable number, so
reading what `plainText` writes gives the number back.
-/

namespace LiveMarkup.Decimal

def digitsValue (ds : List Char) : Nat :=
  ds.foldl (fun n c => 10 * n + (c.toNat - '0'.toNat)) 0

/-- The number nearest to `digits * 10 ^ exp`. Sizes that are certain to overflow or vanish are
answered without computing the power. -/
def nearest (digits : Nat) (exp : Int) : Float :=
  if digits = 0 then 0.0
  else
    let top := exp + digitCount digits
    if 320 < top then 1.0 / 0.0
    else if top < -400 then 0.0
    else if exp < 0 then Float.ofScientific digits true exp.natAbs
    else Float.ofScientific digits false exp.natAbs

/-- Splits off an optional sign: whether it was a minus, and the rest. -/
def takeSign : List Char → Bool × List Char
  | '-' :: rest => (true, rest)
  | '+' :: rest => (false, rest)
  | rest => (false, rest)

/-- The exponent part: empty, or a mark, an optional sign and at least one digit. -/
def readExponent : List Char → Option Int
  | [] => some 0
  | c :: rest =>
    if c == 'e' || c == 'E' then
      let (negative, ds) := takeSign rest
      if ds.isEmpty || !ds.all Char.isDigit then none
      else some (if negative then -(digitsValue ds : Int) else digitsValue ds)
    else none

def readUnsigned (s : List Char) : Option Float :=
  let whole := s.takeWhile Char.isDigit
  let rest := s.dropWhile Char.isDigit
  let (frac, rest) :=
    match rest with
    | '.' :: more => (more.takeWhile Char.isDigit, more.dropWhile Char.isDigit)
    | _ => ([], rest)
  if whole.isEmpty && frac.isEmpty then none
  else (readExponent rest).map fun e => nearest (digitsValue (whole ++ frac)) (e - frac.length)

def readDigits (s : List Char) : Option Float :=
  let (negative, rest) := takeSign s
  (readUnsigned rest).map fun x => if negative then -x else x

/-- The spellings of the values that have no digits, in any case. -/
def readNamed (s : List Char) : Option Float :=
  let (negative, rest) := takeSign s
  let word := String.ofList (rest.map Char.toLower)
  let sign (x : Float) : Float := if negative then -x else x
  if word == "inf" || word == "infinity" then some (sign (1.0 / 0.0))
  else if word == "nan" then some (sign (0.0 / 0.0))
  else none

def read? (s : String) : Option Float :=
  readNamed s.toList <|> readDigits s.toList

/-- A list position: digits after an optional plus sign, below `2 ^ 64`. -/
def readIndex? (s : String) : Option Nat :=
  let ds := match s.toList with
    | '+' :: rest => rest
    | rest => rest
  if ds.isEmpty || !ds.all Char.isDigit then none
  else
    let n := digitsValue ds
    if n < Nat.pow 2 64 then some n else none

/-- The list position nearest to a number: the fraction is dropped, negative numbers and NaN give
zero, and what is too large gives the greatest position. -/
def toIndex (x : Float) : Nat :=
  x.toUInt64.toNat

end LiveMarkup.Decimal
