import LiveMarkup.Decimal.Binary

/-!
# The fewest digits that read back

Every finite number owns an interval of reals: those that round to it. Its *shortest* decimal is
the one with the fewest digits inside that interval and, among those, the nearest to the exact
value. The search tries one digit, then two, and so on; on each decimal grid only the two
neighbours of the exact value have to be looked at. Seventeen digits always suffice.

Two candidates can be equally near. Which one is taken is the format's decision (`Tie`).
-/

namespace LiveMarkup.Decimal

/-- What happens when two candidates are equally near. -/
inductive Tie where
  | toEven
  | up
deriving DecidableEq

/-- The decimal `digits * 10 ^ exp`. -/
structure Numeral where
  digits : Nat
  exp : Int
deriving DecidableEq

/-- How many decimal digits a natural number has; zero has one. -/
def digitCount (n : Nat) : Nat :=
  (Nat.toDigits 10 n).length

/-- The least `k` with `num / den < 10 ^ k`, for a positive quotient. -/
def decade (num den : Nat) : Int :=
  if den ≤ num then digitCount (num / den) else 1 - (digitCount ((den - 1) / num) : Int)

/-- The interval of a magnitude, with the value itself: numerators of the lower end, the value and
the upper end over one denominator, and whether the ends belong to it. -/
structure Interval where
  low : Nat
  value : Nat
  high : Nat
  den : Nat
  closed : Bool

/-- The reals that round to a positive magnitude. Below a power of two the neighbours are twice as
dense, so there the lower end is nearer. -/
def Binary.interval (b : Binary) : Interval :=
  let s := ({ b with exp := b.exp - 2 } : Binary).scale
  let gap := if b.mant = Nat.pow 2 52 ∧ b.exp ≠ -1074 then 1 else 2
  { low := (4 * b.mant - gap) * s.1
    value := 4 * b.mant * s.1
    high := (4 * b.mant + 2) * s.1
    den := s.2
    closed := b.mant % 2 == 0 }

def Interval.rescale (i : Interval) (e : Int) : Interval :=
  if e < 0 then
    let p := Nat.pow 10 e.natAbs
    { i with low := i.low * p, value := i.value * p, high := i.high * p }
  else { i with den := i.den * Nat.pow 10 e.natAbs }

def Interval.holds (i : Interval) (d : Nat) : Bool :=
  if i.closed then i.low ≤ d * i.den && d * i.den ≤ i.high
  else i.low < d * i.den && d * i.den < i.high

/-- The whole number of the interval that is nearest to its value, if one of the value's two
neighbours lies inside. -/
def Interval.nearest? (i : Interval) (tie : Tie) : Option Nat :=
  let d := i.value / i.den
  match i.holds d, i.holds (d + 1) with
  | true, true =>
    if 2 * i.value < (2 * d + 1) * i.den then some d
    else if (2 * d + 1) * i.den < 2 * i.value then some (d + 1)
    else match tie with
      | .up => some (d + 1)
      | .toEven => some (if d % 2 = 0 then d else d + 1)
  | true, false => some d
  | false, true => some (d + 1)
  | false, false => none

/-- Tries grids of `n`, `n + 1`, … digits, `tries` of them. -/
def Interval.search (i : Interval) (tie : Tie) (top : Int) : Nat → Nat → Numeral
  | 0, n => ⟨(i.rescale (top - n)).value / (i.rescale (top - n)).den, top - n⟩
  | tries + 1, n =>
    match (i.rescale (top - n)).nearest? tie with
    | some d => ⟨d, top - n⟩
    | none => i.search tie top tries (n + 1)

def Numeral.strip (d : Numeral) : Nat → Numeral
  | 0 => d
  | k + 1 =>
    if d.digits ≠ 0 ∧ d.digits % 10 = 0 then strip ⟨d.digits / 10, d.exp + 1⟩ k else d

def Binary.shortest (b : Binary) (tie : Tie) : Numeral :=
  if b.mant = 0 then ⟨0, 0⟩
  else
    let i := b.interval
    (i.search tie (decade i.value i.den) 17 1).strip 20

end LiveMarkup.Decimal
