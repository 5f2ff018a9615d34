/-!
# Sets of characters given by their runs

A set of characters is written as the lengths of the runs of code points that lie outside and inside
of it, in turn: the first run is outside, the second one inside, and so on. Behind the last run
nothing belongs to the set. The large classes of the Unicode standard are tables in this form, with
the lengths spelled one after the other: the last digit of each is a decimal digit or a small letter,
and the digits before it are capitals.
-/

namespace LiveMarkup.Text

/-- A set of characters, as the lengths of the runs outside and inside of it. -/
structure CharSet where
  runs : List Nat

namespace CharSet

/-- Whether the code point that is `n` places on lies inside, counted along the runs. -/
def reaches (inside : Bool) : List Nat → Nat → Bool
  | [], _ => false
  | r :: runs, n => if n < r then inside else reaches (!inside) runs (n - r)

def contains (s : CharSet) (c : Char) : Bool :=
  reaches false s.runs c.toNat

/-- The numbers that digits spell; `n` is made of the leading digits of the first one. -/
def numbers (n : Nat) : List Char → List Nat
  | [] => []
  | c :: cs =>
    if c.isUpper then numbers (26 * n + (c.toNat - 'A'.toNat)) cs
    else (36 * n + if c.isDigit then c.toNat - '0'.toNat else c.toNat - 'a'.toNat + 10) :: numbers 0 cs

def ofTexts (lengths : List String) : CharSet :=
  ⟨lengths.flatMap fun s => numbers 0 s.toList⟩

end CharSet

end LiveMarkup.Text
