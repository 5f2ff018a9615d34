/-!
# The exact value of a number

A finite number is a sign and a magnitude `mant * 2 ^ exp`, read off its 64 bits. Everything that
writes a number starts from this pair and from exact arithmetic on natural numbers, so what is
printed never depends on a rounding step in between.
-/

namespace LiveMarkup.Decimal

/-- The magnitude `mant * 2 ^ exp`. -/
structure Binary where
  mant : Nat
  exp : Int
deriving DecidableEq

namespace Binary

/-- The magnitude held by 64 bits. Infinities and NaN are no magnitudes; callers treat them
first. -/
def ofBits (bits : UInt64) : Binary :=
  let frac : Nat := bits.toNat % Nat.pow 2 52
  let tag : Nat := bits.toNat / Nat.pow 2 52 % Nat.pow 2 11
  if tag = 0 then ⟨frac, -1074⟩ else ⟨frac + Nat.pow 2 52, (tag : Int) - 1075⟩

def ofFloat (x : Float) : Binary :=
  ofBits x.toBits

def scale (b : Binary) : Nat × Nat :=
  if b.exp < 0 then (1, Nat.pow 2 b.exp.natAbs) else (Nat.pow 2 b.exp.natAbs, 1)

def quotient (b : Binary) : Nat × Nat :=
  (b.mant * b.scale.1, b.scale.2)

end Binary

/-- Whether the sign bit is set; true of negative zero too. -/
def isNegative (x : Float) : Bool :=
  x.toBits.toNat / Nat.pow 2 63 == 1

/-- A number without its fraction. -/
def truncate (x : Float) : Int :=
  let q := (Binary.ofFloat x).quotient
  if isNegative x then -(q.1 / q.2 : Nat) else (q.1 / q.2 : Nat)

/-- Whether a number has no fractional part. Infinities and NaN have none to speak of and are not
integral. -/
def isIntegral (x : Float) : Bool :=
  let q := (Binary.ofFloat x).quotient
  x.isFinite && q.1 % q.2 == 0

/-- Remainder of a division that rounds toward zero: exact, with the sign of the dividend. -/
def remainder (x y : Float) : Float :=
  if x.isNaN || y.isNaN || x.isInf || y == 0.0 then 0.0 / 0.0
  else if y.isInf || x == 0.0 then x
  else
    let a := Binary.ofFloat x
    let b := Binary.ofFloat y
    let e := min a.exp b.exp
    let r := a.mant * Nat.pow 2 (a.exp - e).toNat % (b.mant * Nat.pow 2 (b.exp - e).toNat)
    let size := (Float.ofNat r).scaleB e
    if isNegative x then -size else size

end LiveMarkup.Decimal
