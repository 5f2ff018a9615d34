/-!
# Results of rendering

Rendering gives markup, or a diagnostic: what went wrong, together with a fragment that is shown in
place of the markup. Either way there is something to put into the page.
-/

namespace LiveMarkup

inductive DiagnosticKind where
  | compile
  | render
  | component
  | layout
  | inclusion
  | notFound
deriving DecidableEq

def DiagnosticKind.word : DiagnosticKind → String
  | .compile => "Compile"
  | .render => "Render"
  | .component => "Component"
  | .layout => "Layout"
  | .inclusion => "Include"
  | .notFound => "NotFound"

/-- A failure with the fragment shown in its place. -/
structure Diagnostic where
  kind : DiagnosticKind
  message : String
  fragment : String
deriving DecidableEq

namespace Diagnostic

def notFound (what name : String) : Diagnostic :=
  let shown := "[" ++ what ++ " " ++ name ++ " not found]"
  ⟨.notFound, shown, shown⟩

def component (message : String) : Diagnostic :=
  ⟨.component, message, "Error: " ++ message⟩

/-- A failure that is shown by its message alone. -/
def nested (kind : DiagnosticKind) (message : String) : Diagnostic :=
  ⟨kind, message, message⟩

/-- The fragment that shows the failure of an instance in a box of the given style. -/
def box (style shown : String) : String :=
  "<div style=\"" ++ style ++ "\">" ++ shown ++ "</div>"

def render (message : String) : Diagnostic :=
  ⟨.render, message, box "color:red" ("Render Error: " ++ message)⟩

def text (d : Diagnostic) : String :=
  d.kind.word ++ ": " ++ d.message

end Diagnostic

inductive Rendered where
  | markup (html : String)
  | diagnostic (d : Diagnostic)
deriving DecidableEq

def Rendered.html : Rendered → String
  | .markup html => html
  | .diagnostic d => d.fragment

end LiveMarkup
