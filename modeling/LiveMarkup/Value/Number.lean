import LiveMarkup.Decimal.Read
import LiveMarkup.Text.Blank

/-!
# Numbers as text, and back

Templates print whole numbers below `10 ^ 21` exactly, every other finite number with the fewest
digits that read back, and negative zero without its sign. Reading a number from text ignores
blanks around it, takes empty text for zero, and gives NaN for whatever is not a number.
-/

namespace LiveMarkup.Number

open LiveMarkup

def text (x : Float) : String :=
  if x.isNaN then "NaN"
  else if x.isInf then (if x < 0.0 then "-Infinity" else "Infinity")
  else if x == 0.0 then "0"
  else if Decimal.isIntegral x && x.abs < 1e21 then Decimal.fixedText x 0
  else Decimal.plainText x

def isNumberChar (c : Char) : Bool :=
  c.isDigit || c == '.' || c == 'e' || c == 'E' || c == '+' || c == '-'

def ofText (s : String) : Float :=
  let cs := Text.trimChars s.toList
  if cs.isEmpty then 0.0
  else if cs == "Infinity".toList || cs == "+Infinity".toList then 1.0 / 0.0
  else if cs == "-Infinity".toList then -(1.0 / 0.0)
  else if cs.all isNumberChar then (Decimal.readDigits cs).getD (0.0 / 0.0)
  else 0.0 / 0.0

end LiveMarkup.Number
