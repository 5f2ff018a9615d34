import LiveMarkup.Text.Blank
import LiveMarkup.Text.Letter

/-!
# Names, paths and loop clauses

The small languages inside directive arguments: variable names, dotted paths of names, and the
clause of a loop, `items as item` or `items as key => item`. The source of a loop ends at the
first place from which on the rest of the clause fits, so it may itself contain ` as ` or `=>`.
-/

namespace LiveMarkup.Clause

open LiveMarkup

def isNameStart (c : Char) : Bool :=
  c.isAlpha || c == '_' || c == '$'

def isNameRest (c : Char) : Bool :=
  Text.isWord c || c == '$'

def splitName : List Char → Option (List Char × List Char)
  | c :: cs =>
    if isNameStart c then some (c :: cs.takeWhile isNameRest, cs.dropWhile isNameRest) else none
  | [] => none

def isName : List Char → Bool
  | c :: cs => isNameStart c && cs.all isNameRest
  | [] => false

def segments : List Char → List (List Char)
  | [] => [[]]
  | c :: cs =>
    if c == '.' then [] :: segments cs
    else
      match segments cs with
      | [] => [[c]]
      | p :: ps => (c :: p) :: ps

/-- Whether a text is a path: variable names with dots between them. -/
def isPath (cs : List Char) : Bool :=
  (segments cs).all isName

structure Loop where
  source : String
  key : Option String
  item : String
deriving DecidableEq

def skipBlanks? : List Char → Option (List Char)
  | c :: cs => if Text.isBlank c then some (cs.dropWhile Text.isBlank) else none
  | [] => none

def lastName? (cs : List Char) : Option String := do
  let (name, rest) ← splitName cs
  if rest.all Text.isBlank then some (String.ofList name) else none

def keyName? (cs : List Char) : Option (String × List Char) := do
  let (name, rest) ← splitName cs
  match rest.dropWhile Text.isBlank with
  | '=' :: '>' :: more => some (String.ofList name, more.dropWhile Text.isBlank)
  | _ => none

/-- The part of a clause behind its source: the key, if there is one, and the item. -/
def binding? (cs : List Char) : Option (Option String × String) := do
  let rest ← skipBlanks? cs
  match rest with
  | 'a' :: 's' :: more =>
    let names ← skipBlanks? more
    let keyed := do
      let (key, rest) ← keyName? names
      let item ← lastName? rest
      some (some key, item)
    keyed <|> (lastName? names).map fun item => (none, item)
  | _ => none

/-- The clause in `cs` whose source starts with the characters `taken`, last one first: the
shortest source behind which the rest fits. -/
def loopFrom? (taken : List Char) : List Char → Option Loop
  | [] => none
  | c :: cs =>
    match binding? cs with
    | some (key, item) => some ⟨String.ofList (c :: taken).reverse, key, item⟩
    | none => loopFrom? (c :: taken) cs

/-- The clause in `cs`, whose first `blanks` characters are blank. Blanks in front do not belong to
the source unless there is no other way to read the clause. -/
def loopBehind? (cs : List Char) : Nat → Option Loop
  | 0 => loopFrom? [] cs
  | n + 1 => loopFrom? [] (cs.drop (n + 1)) <|> loopBehind? cs n

def loop? (clause : String) : Option Loop :=
  let cs := clause.toList
  loopBehind? cs (cs.takeWhile Text.isBlank).length

end LiveMarkup.Clause
