import LiveMarkup.Decimal.Layout

/-!
# JSON trees and their text

The written form of data. Integers and other numbers are kept apart, because a whole number of
moderate size is written without a point. Text is compact: no blanks, and only the quote, the
backslash and control characters are escaped.
-/

namespace LiveMarkup

/-- A JSON document. Members keep their order. -/
inductive Json where
  | null
  | bool (b : Bool)
  | int (n : Int)
  | float (x : Float)
  | text (s : String)
  | array (items : List Json)
  | object (members : List (String × Json))
deriving Inhabited

namespace Json

/-- Numbers that are not written as integers: a decimal stands behind whole numbers, and notation
is positional from `0.00001` up to below `10 ^ 16`. -/
def layout : Decimal.Layout where
  leastPositional := some (-5)
  leastScientific := some 16
  wholeSuffix := ".0"
  tie := .toEven

/-- The JSON form of a number: whole numbers of magnitude below `2 ^ 53` are integers, and what is
not finite has no form but `null`. -/
def ofNumber (x : Float) : Json :=
  if Decimal.isIntegral x && x.abs < 9007199254740992.0 then .int (Decimal.truncate x)
  else if x.isFinite then .float x
  else .null

def hexDigit (n : Nat) : Char :=
  if n < 10 then Char.ofNat ('0'.toNat + n) else Char.ofNat ('a'.toNat + (n - 10))

def escapeChar (c : Char) : List Char :=
  if c == '"' then ['\\', '"']
  else if c == '\\' then ['\\', '\\']
  else if c == '\x08' then ['\\', 'b']
  else if c == '\x0c' then ['\\', 'f']
  else if c == '\n' then ['\\', 'n']
  else if c == '\r' then ['\\', 'r']
  else if c == '\t' then ['\\', 't']
  else if c.toNat < 0x20 then ['\\', 'u', '0', '0', hexDigit (c.toNat / 16), hexDigit (c.toNat % 16)]
  else [c]

def quote (s : String) : String :=
  "\"" ++ String.ofList (s.toList.flatMap escapeChar) ++ "\""

mutual

def render : Json → String
  | .null => "null"
  | .bool b => if b then "true" else "false"
  | .int n => Decimal.intText n
  | .float x => layout.writeFloat x
  | .text s => quote s
  | .array items => "[" ++ renderItems items ++ "]"
  | .object members => "\x7b" ++ renderMembers members ++ "\x7d"

def renderItems : List Json → String
  | [] => ""
  | [item] => render item
  | item :: rest => render item ++ "," ++ renderItems rest

def renderMembers : List (String × Json) → String
  | [] => ""
  | [(key, item)] => quote key ++ ":" ++ render item
  | (key, item) :: rest => quote key ++ ":" ++ render item ++ "," ++ renderMembers rest

end

end Json

end LiveMarkup
