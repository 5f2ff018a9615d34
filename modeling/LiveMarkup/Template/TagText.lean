/-!
# Attributes in the text of a component tag

Attributes are looked for from left to right: a name, an equals sign, and a value between quotes.
A colon before the name marks the value as an expression. The value ends at the next quote of
either kind, on the same line; whatever is not an attribute is passed over.
-/

namespace LiveMarkup.TagText

structure Attribute where
  name : String
  value : String
  isDynamic : Bool
deriving DecidableEq

def isNameChar (c : Char) : Bool :=
  c.isAlphanum || c == '_' || c == '-'

def isQuote (c : Char) : Bool :=
  c == '"' || c == '\''

def quoted? : List Char → Option (List Char × List Char)
  | q :: cs =>
    if isQuote q then
      let value := cs.takeWhile fun c => !isQuote c && c != '\n'
      match cs.drop value.length with
      | c :: rest => if isQuote c then some (value, rest) else none
      | [] => none
    else none
  | [] => none

def named? (cs : List Char) : Option (List Char × List Char × List Char) :=
  let name := cs.takeWhile isNameChar
  if name.isEmpty then none
  else
    match cs.drop name.length with
    | '=' :: rest => (quoted? rest).map fun r => (name, r.1, r.2)
    | _ => none

def attribute? : List Char → Option (Attribute × List Char)
  | ':' :: cs => (named? cs).map fun r => (⟨String.ofList r.1, String.ofList r.2.1, true⟩, r.2.2)
  | cs => (named? cs).map fun r => (⟨String.ofList r.1, String.ofList r.2.1, false⟩, r.2.2)

/-- The attributes in a text; `skip` characters belong to one already found. -/
def attributesFrom (skip : Nat) : List Char → List Attribute
  | [] => []
  | c :: cs =>
    match skip with
    | n + 1 => attributesFrom n cs
    | 0 =>
      match attribute? (c :: cs) with
      | some (a, rest) => a :: attributesFrom (cs.length - rest.length) cs
      | none => attributesFrom 0 cs

def attributes (source : String) : List Attribute :=
  attributesFrom 0 source.toList

/-- The name that the text of a slot tag gives: the value of the first `name=`. -/
def slotNameIn : List Char → Option String
  | [] => none
  | c :: cs =>
    if "name=".toList.isPrefixOf (c :: cs) then
      match quoted? (cs.drop 4) with
      | some r => some (String.ofList r.1)
      | none => slotNameIn cs
    else slotNameIn cs

def slotName (source : String) : String :=
  (slotNameIn source.toList).getD "default"

end LiveMarkup.TagText
