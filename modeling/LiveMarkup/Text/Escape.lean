/-!
# Escaping for markup

The five characters that have a meaning in markup are written as entities.
-/

namespace LiveMarkup.Text

def escapeHtmlChar : Char → String
  | '&' => "&amp;"
  | '<' => "&lt;"
  | '>' => "&gt;"
  | '"' => "&quot;"
  | '\'' => "&#x27;"
  | c => c.toString

def escapeHtml (s : String) : String :=
  String.join (s.toList.map escapeHtmlChar)

end LiveMarkup.Text
