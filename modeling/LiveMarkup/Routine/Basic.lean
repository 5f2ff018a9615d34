import LiveMarkup.Expr.Basic

/-!
# Render routines

A routine is a template made ready to render: a list of instructions with parsed expressions.
Bodies that may be rendered elsewhere or later (slots, sections) are lists of instructions of
their own.
-/

namespace LiveMarkup

inductive Condition where
  | truthy (e : Expr)
  | falsy (e : Expr)
  /-- Neither absent nor unresolvable. -/
  | isset (e : Expr)
  /-- Falsy, an empty list, or unresolvable. -/
  | empty (e : Expr)

inductive AttrValue where
  | literal (s : String)
  | dynamic (e : Expr)

inductive Instruction where
  | text (s : String)
  | echo (e : Expr)
  /-- The first branch whose condition holds, else the last body. -/
  | choose (branches : List (Condition × List Instruction)) (otherwise : List Instruction)
  /-- Labels point into the body; the label without a test is the default. -/
  | switch (subject : Expr) (labels : List (Option Expr × Nat)) (body : List Instruction)
  | foreach (source : Expr) (key : Option String) (item : String) (body : List Instruction)
  | leave
  | json (e : Expr)
  | classes (e : Expr)
  | style (e : Expr)
  /-- A bare attribute name when the condition holds. -/
  | flag (name : String) (condition : Expr)
  | click (handler : String)
  | model (path : String) (value : Expr)
  | yieldSection (sectionName : String) (default : Option Expr)
  | push (stack : String) (body : List Instruction)
  | stack (name : String)
  | includeView (view : Expr) (data : Option Expr)
  | inject (binder service : String)
  | component (name : String) (attrs : List (String × AttrValue))
      (slots : List (String × List Instruction))
  /-- A component named by an expression, with at most one slot. -/
  | namedComponent (name : Expr) (data : Option Expr) (body : Option (List Instruction))
  | extendLayout (layout : String) (sections : List (String × List Instruction))
deriving Inhabited

structure Routine where
  body : List Instruction
deriving Inhabited

namespace Routine

def fixed (s : String) : Routine :=
  ⟨[.text s]⟩

def layout (r : Routine) : Option String :=
  r.body.findSome? fun
    | .extendLayout layout _ => some layout
    | _ => none

end Routine

end LiveMarkup
