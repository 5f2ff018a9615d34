import LiveMarkup.Text.Blank

/-!
# Arguments of directives

The text between the parentheses of a directive is cut at commas that stand outside quotes and
brackets. Brackets are only counted, not matched: any closing bracket ends the innermost one, and
surplus closing brackets are ignored.
-/

namespace LiveMarkup.Arguments

open LiveMarkup

/-- Where the scan stands: inside a quote, perhaps behind a backslash, or outside at some depth of
brackets. -/
inductive State where
  | outside (depth : Nat)
  | quoted (quote : Char) (escaped : Bool) (depth : Nat)

/-- The state after a character that does not separate arguments. -/
def State.after : State → Char → State
  | .outside depth, c =>
    if c == '\'' || c == '"' || c == '`' then .quoted c false depth
    else if c == '(' || c == '[' || c == '\x7b' then .outside (depth + 1)
    else if c == ')' || c == ']' || c == '\x7d' then .outside (depth - 1)
    else .outside depth
  | .quoted q true depth, _ => .quoted q false depth
  | .quoted q false depth, c =>
    if c == '\\' then .quoted q true depth
    else if c == q then .outside depth
    else .quoted q false depth

/-- Whether a character separates arguments. -/
def State.separates : State → Char → Bool
  | .outside 0, c => c == ','
  | _, _ => false

/-- The raw pieces from here on; the first one is the end of the current piece. -/
def pieces (s : State) : List Char → List (List Char)
  | [] => [[]]
  | c :: cs =>
    if s.separates c then [] :: pieces s cs
    else
      match pieces (s.after c) cs with
      | [] => [[c]]
      | p :: ps => (c :: p) :: ps

/-- The arguments in a text, trimmed. A blank text holds none. -/
def split (source : String) : List String :=
  let cs := source.toList
  if (Text.trimChars cs).isEmpty then []
  else (pieces (.outside 0) cs).map fun p => String.ofList (Text.trimChars p)

/-- Removes one pair of single or double quotes around a text. -/
def unquoteChars : List Char → List Char
  | q :: rest =>
    if (q == '\'' || q == '"') && rest.getLast? == some q then rest.dropLast else q :: rest
  | [] => []

/-- A text without blanks around it and without one pair of quotes. -/
def unquote (source : String) : String :=
  String.ofList (unquoteChars (Text.trimChars source.toList))

end LiveMarkup.Arguments
