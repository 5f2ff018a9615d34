import LiveMarkup.Toml.Value

/-!
# TOML documents

A document is a list of lines: entries, which go into the table named last, and table headers. A
table may be mentioned before it is defined, but it is defined only once, and no name in it is given
twice.
-/

namespace LiveMarkup.Toml

inductive Origin where
  | implied
  | header
  | dotted
deriving DecidableEq

inductive Tree where
  | leaf (v : Toml)
  | table (origin : Origin) (entries : List (String × Tree))
  /-- Tables of one name, last one first. -/
  | series (tables : List (List (String × Tree)))

abbrev Entries := List (String × Tree)

def Entries.put (es : Entries) (k : String) (t : Tree) : Entries :=
  es.map fun e => if e.1 == k then (k, t) else e

/-- Adds a value below a dotted key. -/
def Entries.insert (v : Toml) : List String → Entries → Option Entries
  | [], _ => none
  | [k], es => if (es.lookup k).isSome then none else some (es ++ [(k, .leaf v)])
  | k :: ks, es =>
    match es.lookup k with
    | none => (Entries.insert v ks []).map fun inner => es ++ [(k, .table .dotted inner)]
    | some (.table .header _) => none
    | some (.table origin inner) =>
      (Entries.insert v ks inner).map fun inner => es.put k (.table origin inner)
    | some _ => none

/-- Opens a table by its header; `begin` makes the new part out of the old one. -/
def Entries.define (begin : Option Tree → Option Tree) : List String → Entries → Option Entries
  | [], _ => none
  | [k], es =>
    (begin (es.lookup k)).map fun t => if (es.lookup k).isSome then es.put k t else es ++ [(k, t)]
  | k :: ks, es =>
    match es.lookup k with
    | none => (Entries.define begin ks []).map fun inner => es ++ [(k, .table .implied inner)]
    | some (.table origin inner) =>
      (Entries.define begin ks inner).map fun inner => es.put k (.table origin inner)
    | some (.series (t :: ts)) =>
      (Entries.define begin ks t).map fun t => es.put k (.series (t :: ts))
    | some _ => none

def Tree.single? : Option Tree → Option Tree
  | none => some (.table .header [])
  | some (.table .implied inner) => some (.table .header inner)
  | some _ => none

def Tree.another? : Option Tree → Option Tree
  | none => some (.series [[]])
  | some (.series ts) => some (.series ([] :: ts))
  | some _ => none

def Entries.within (f : Entries → Option Entries) : List String → Entries → Option Entries
  | [], es => f es
  | k :: ks, es =>
    match es.lookup k with
    | some (.table origin inner) =>
      (Entries.within f ks inner).map fun inner => es.put k (.table origin inner)
    | some (.series (t :: ts)) =>
      (Entries.within f ks t).map fun t => es.put k (.series (t :: ts))
    | _ => none

mutual

def Tree.toToml : Tree → Toml
  | .leaf v => v
  | .table _ es => .table (entriesToToml es)
  | .series ts => .array (seriesToToml ts).reverse

def entriesToToml : List (String × Tree) → List (String × Toml)
  | [] => []
  | (k, t) :: es => (k, t.toToml) :: entriesToToml es

def seriesToToml : List (List (String × Tree)) → List Toml
  | [] => []
  | t :: ts => .table (entriesToToml t) :: seriesToToml ts

end

/-- The end of a line: blanks and perhaps a comment. -/
def endOfLine? (cs : List Char) : Option (List Char) :=
  let cs := skipComment (skipSpace cs)
  if cs.isEmpty then some [] else newline? cs

/-- Reads lines into the document `es`; `current` names the table that entries go into. -/
def lines? : Nat → List String → Entries → List Char → Option Entries
  | 0, _, _, _ => none
  | n + 1, current, es, cs =>
    let cs := skipSpace cs
    match cs with
    | [] => some es
    | '[' :: '[' :: rest => do
      let (path, rest) ← key? rest.length rest
      let ']' :: ']' :: rest := rest | none
      let es ← Entries.define Tree.another? path es
      let rest ← endOfLine? rest
      lines? n path es rest
    | '[' :: rest => do
      let (path, rest) ← key? rest.length rest
      let ']' :: rest := rest | none
      let es ← Entries.define Tree.single? path es
      let rest ← endOfLine? rest
      lines? n path es rest
    | _ =>
      match endOfLine? cs with
      | some rest => lines? n current es rest
      | none => do
        let (path, rest) ← key? cs.length cs
        let '=' :: rest := rest | none
        let rest := skipSpace rest
        let (v, rest) ← value? rest.length rest
        let es ← Entries.within (Entries.insert v path) current es
        let rest ← endOfLine? rest
        lines? n current es rest

def parse? (source : String) : Option (List (String × Toml)) :=
  let cs := source.toList
  let cs := if cs.head? == some '\ufeff' then cs.drop 1 else cs
  (lines? (cs.length + 1) [] [] cs).map entriesToToml

end LiveMarkup.Toml
