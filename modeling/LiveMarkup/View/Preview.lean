import LiveMarkup.View.Instance

/-!
# Previews

A preview renders a template on its own. Components and includes appear as placeholders that show
what they were given; layouts are rendered, because they come with the preview.
-/

namespace LiveMarkup

namespace View

variable {C : Client}

/-- How a preview shows attributes: each with its type and its text. -/
def previewAttributes : List (String × Value) → View C String
  | [] => return ""
  | (name, v) :: rest => do
    let s ← display v
    let more ← previewAttributes rest
    return " " ++ name ++ "=(" ++ v.typeName ++ " " ++ s ++ ")" ++ more

/-- How a preview shows slots: each with its markup, or with the message of its failure. -/
def previewSlots : List (String × Fragment Owner) → View C String
  | [] => return ""
  | (name, f) :: rest => do
    let shown ← match ← renderFragment f with
      | .markup html => pure (":" ++ html)
      | .diagnostic d => pure ("!" ++ d.message)
    let more ← previewSlots rest
    return "[" ++ name ++ shown ++ "]" ++ more

def previewComponent (kit : PreviewKit) (name : String) (attrs : Table Value)
    (slots : Slots Owner) : View C Rendered := do
  if kit.broken.contains name then return .diagnostic (.component name)
  else
    let shownAttrs ← previewAttributes attrs.entries
    let shownSlots ← previewSlots slots.entries
    return .markup ("<" ++ name ++ shownAttrs ++ ">" ++ shownSlots ++ "</" ++ name ++ ">")

def previewLayout (kit : PreviewKit) (name : String) (sections : Slots Owner) :
    View C Rendered := do
  match kit.layouts.get? name with
  | none => return .diagnostic (.notFound "Layout" name)
  | some r =>
    let data ← Program.newObject .empty
    match ← render r { data, globals := kit.globals } (.preview kit sections) with
    | .ok html => return .markup html
    | .error e => return .diagnostic (.nested .layout e.message)

def previewInclude (name : String) (passed : Option Value) : View C Rendered := do
  let shown ← match passed with
    | none => pure "-"
    | some v => do
      match ← Program.read (.json v) with
      | .ok j => pure j.render
      | .error _ => pure Json.null.render
  return .markup ("[include " ++ name ++ " " ++ shown ++ "]")

def previewHost (kit : PreviewKit) (sections : Slots Owner) : Host C.signature Owner where
  self := .preview kit sections
  component := previewComponent kit
  layout := previewLayout kit
  includeView := previewInclude
  sectionOf := sections.get?
  fragment := renderFragment
  push := pushStack
  stack := stackText
  service name := return kit.services.get? name
  apply := apply
  invoke := callHost

end View

end LiveMarkup
