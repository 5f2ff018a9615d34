/-!
# Searching and cutting texts

Positions count characters. The empty text occurs everywhere, first of all at the start.
-/

namespace LiveMarkup.Text

def indexOf? (needle : List Char) : List Char → Option Nat
  | [] => if needle.isEmpty then some 0 else none
  | c :: cs =>
    if needle.isPrefixOf (c :: cs) then some 0 else (indexOf? needle cs).map (· + 1)

def occurs (needle cs : List Char) : Bool :=
  (indexOf? needle cs).isSome

def endsWith (needle cs : List Char) : Bool :=
  needle.reverse.isPrefixOf cs.reverse

/-- Pieces between the separators from here on; `skip` characters still belong to a separator
already found, and `piece` holds the current piece, last character first. -/
def splitFrom (sep : List Char) (skip : Nat) (piece : List Char) : List Char → List (List Char)
  | [] => [piece.reverse]
  | c :: cs =>
    match skip with
    | n + 1 => splitFrom sep n piece cs
    | 0 =>
      if sep.isPrefixOf (c :: cs) then piece.reverse :: splitFrom sep (sep.length - 1) [] cs
      else splitFrom sep 0 (c :: piece) cs

/-- Pieces between the occurrences of a separator. The empty separator cuts between all
characters. -/
def splitOn (sep cs : List Char) : List (List Char) :=
  if sep.isEmpty then cs.map fun c => [c] else splitFrom sep 0 [] cs

end LiveMarkup.Text
