import LiveMarkup.Decimal.Shortest

/-!
# Writing numbers

Digits are chosen elsewhere; here they are laid out. A `Layout` says for which sizes the point is
set positionally, whether a whole number keeps a decimal, and how ties between digits go. Fixed
places are rounded from the exact value, a half going to the even neighbour.
-/

namespace LiveMarkup.Decimal

def zeros (n : Nat) : String :=
  String.ofList (List.replicate n '0')

def digitText (n : Nat) : String :=
  String.ofList (Nat.toDigits 10 n)

/-- Decimal digits of an integer, with a leading minus when negative. -/
def intText (n : Int) : String :=
  if n < 0 then "-" ++ digitText n.natAbs else digitText n.natAbs

/-- Text of a fraction: `digits`, of which the last `places` stand behind the point. -/
def pointed (digits places : Nat) : String :=
  let ds := Nat.toDigits 10 digits
  let ds := List.replicate (places + 1 - ds.length) '0' ++ ds
  if places = 0 then String.ofList ds
  else
    String.ofList (ds.take (ds.length - places)) ++ "." ++
      String.ofList (ds.drop (ds.length - places))

/-- How the shortest decimal of a finite number is laid out. -/
structure Layout where
  /-- Power of ten of the leading digit from which on notation is positional. -/
  leastPositional : Option Int
  /-- Power of ten of the leading digit from which on notation is scientific. -/
  leastScientific : Option Int
  /-- What a whole number carries behind its digits. -/
  wholeSuffix : String
  tie : Tie

def Layout.positional (l : Layout) (d : Numeral) : String :=
  if d.exp < 0 then pointed d.digits d.exp.natAbs
  else digitText d.digits ++ zeros d.exp.natAbs ++ l.wholeSuffix

/-- Scientific text of a decimal: one digit before the point, an exponent with its sign. -/
def scientific (d : Numeral) : String :=
  let ds := Nat.toDigits 10 d.digits
  let head := String.ofList (ds.take 1)
  let tail := String.ofList (ds.drop 1)
  let lead := d.exp + (ds.length - 1 : Nat)
  (if tail.isEmpty then head else head ++ "." ++ tail) ++ "e" ++
    (if lead < 0 then "-" else "+") ++ digitText lead.natAbs

/-- Text of a decimal: positional between the two bounds of the layout, scientific outside. -/
def Layout.write (l : Layout) (d : Numeral) : String :=
  let lead := d.exp + (digitCount d.digits - 1 : Nat)
  let small := l.leastPositional.any (lead < ·)
  let large := l.leastScientific.any (· ≤ lead)
  if d.digits ≠ 0 ∧ (small || large) then scientific d else l.positional d

def Layout.writeFloat (l : Layout) (x : Float) : String :=
  (if isNegative x then "-" else "") ++ l.write ((Binary.ofFloat x).shortest l.tie)

/-- Numbers as they stand in messages: always positional, ties away from zero, nothing behind a
whole number. -/
def plain : Layout where
  leastPositional := none
  leastScientific := none
  wholeSuffix := ""
  tie := .up

def plainText (x : Float) : String :=
  if x.isNaN then "NaN"
  else if x.isInf then (if x < 0.0 then "-inf" else "inf")
  else plain.writeFloat x

/-- The quotient `num / den` rounded to a whole number, a half going to the even neighbour. -/
def roundDiv (num den : Nat) : Nat :=
  let q := num / den
  let r := num % den
  if 2 * r < den then q
  else if den < 2 * r then q + 1
  else if q % 2 = 0 then q else q + 1

/-- Text with a fixed number of places, rounded from the exact value. The sign of a negative
number stays even when everything rounds to zero. -/
def fixedText (x : Float) (places : Nat) : String :=
  if x.isNaN then "NaN"
  else if x.isInf then (if x < 0.0 then "-inf" else "inf")
  else
    let (num, den) := (Binary.ofFloat x).quotient
    (if isNegative x then "-" else "") ++ pointed (roundDiv (num * Nat.pow 10 places) den) places

end LiveMarkup.Decimal
