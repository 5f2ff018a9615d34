import LiveMarkup.Template.Arguments
import LiveMarkup.Template.Token

/-!
# Template trees

The tree of a template: text, echoes, directives and component tags. Some directives open a block
that a matching `@end…` closes; `@section` does so only with a single argument. Directives such as
`@else` stand as siblings inside the block they divide.

Every source has a tree. What does not fit becomes text again: a closing mark that closes nothing,
a stray parenthesis. Blocks that are never closed end where the source ends.
-/

namespace LiveMarkup

inductive Node where
  | root (children : List Node)
  | text (s : String)
  /-- An echo with the source of its expression, trimmed. -/
  | echo (source : String)
  | directive (name : String) (args : Option String) (children : List Node)
  | component (tag attrs : String) (children : List Node)
deriving Inhabited

namespace Node

def children : Node → List Node
  | .root ns => ns
  | .directive _ _ ns => ns
  | .component _ _ ns => ns
  | .text _ => []
  | .echo _ => []

def isBlankText : Node → Bool
  | .text s => (Text.trimChars s.toList).isEmpty
  | _ => false

def blockNames : List String :=
  ["if", "unless", "isset", "empty", "switch", "foreach", "push", "component"]

def siblingNames : List String :=
  ["else", "elseif", "case", "default", "break"]

def isBlock (name : String) (args : Option String) : Bool :=
  blockNames.contains name ||
    (name == "section" && args.any fun a => (Arguments.split a).length == 1)

/-- Adds text behind nodes: empty text is dropped and adjacent text is joined. -/
def addText (ns : List Node) (s : String) : List Node :=
  if s.isEmpty then ns
  else
    match ns.getLast? with
    | some (.text t) => ns.dropLast ++ [.text (t ++ s)]
    | _ => ns ++ [.text s]

inductive Opener where
  | directive (name : String) (args : Option String)
  | component (tag attrs : String)

/-- An open block with the nodes found in it so far. -/
structure Frame where
  opener : Opener
  children : List Node

def Frame.close (f : Frame) : Node :=
  match f.opener with
  | .directive name args => .directive name args f.children
  | .component tag attrs => .component tag attrs f.children

/-- A tree under construction: the open blocks, innermost first, and the nodes outside of them. -/
structure Builder where
  frames : List Frame := []
  top : List Node := []

namespace Builder

def modify (b : Builder) (f : List Node → List Node) : Builder :=
  match b.frames with
  | [] => { b with top := f b.top }
  | fr :: rest => { b with frames := { fr with children := f fr.children } :: rest }

def addText (b : Builder) (s : String) : Builder :=
  b.modify fun ns => Node.addText ns s

def add (b : Builder) (n : Node) : Builder :=
  b.modify fun ns => ns ++ [n]

def openBlock (b : Builder) (o : Opener) : Builder :=
  { b with frames := ⟨o, []⟩ :: b.frames }

def closeBlock (b : Builder) : Builder :=
  match b.frames with
  | [] => b
  | fr :: rest => ({ b with frames := rest } : Builder).add fr.close

def finish : List Frame → List Node → List Node
  | [], top => top
  | [fr], top => top ++ [fr.close]
  | fr :: fr' :: rest, top =>
    finish ({ fr' with children := fr'.children ++ [fr.close] } :: rest) top
termination_by frames => frames.length

def closes (b : Builder) (name : List Char) : Bool :=
  match b.frames with
  | ⟨.directive open_ _, _⟩ :: _ => open_.toList == name
  | _ => false

def closesTag (b : Builder) (tag : String) : Bool :=
  match b.frames with
  | ⟨.component open_ _, _⟩ :: _ => open_ == tag
  | _ => false

/-- Adds a directive with its arguments: as an open block or as a node of its own. -/
def directive (b : Builder) (name : String) (args : Option String) : Builder :=
  if !siblingNames.contains name && isBlock name args then b.openBlock (.directive name args)
  else b.add (.directive name args [])

/-- Adds a component tag whose attribute text was read: a slash at its end closes it at once. -/
def tag (b : Builder) (name : String) (attrs : List Char) : Builder :=
  let attrs := Text.trimChars attrs
  match attrs.getLast? with
  | some '/' =>
    b.add (.component name (String.ofList (Text.trimEnd attrs.dropLast)) [])
  | _ => b.openBlock (.component name (String.ofList attrs))

end Builder

def sourceOf (ts : List Token) : String :=
  String.join (ts.map Token.source)

/-- Splits tokens at the first one that `stop` accepts, which is dropped. -/
def splitAtToken (stop : Token → Bool) (ts : List Token) : String × List Token :=
  (sourceOf (ts.takeWhile fun t => !stop t), (ts.dropWhile fun t => !stop t).drop 1)

/-- Splits tokens at the parenthesis that closes the one before them, at nesting `depth`. -/
def splitParens (depth : Nat) : List Token → String × List Token
  | [] => ("", [])
  | .eof :: rest => ("", rest)
  | .parenEnd :: rest =>
    match depth with
    | 0 => ("", rest)
    | d + 1 =>
      let r := splitParens d rest
      (")" ++ r.1, r.2)
  | .parenStart :: rest =>
    let r := splitParens (depth + 1) rest
    ("(" ++ r.1, r.2)
  | t :: rest =>
    let r := splitParens depth rest
    (t.source ++ r.1, r.2)

/-- The arguments of a directive, if a parenthesis follows its name. -/
def splitArgs : List Token → Option String × List Token
  | .parenStart :: rest =>
    let r := splitParens 0 rest
    (some r.1, r.2)
  | ts => (none, ts)

theorem splitAtToken_length (stop : Token → Bool) (ts : List Token) :
    (splitAtToken stop ts).2.length ≤ ts.length := by
  have := (List.dropWhile_suffix (l := ts) fun t => !stop t).length_le
  simp only [splitAtToken, List.length_drop]
  omega

theorem splitParens_length (depth : Nat) (ts : List Token) :
    (splitParens depth ts).2.length ≤ ts.length := by
  fun_induction splitParens depth ts with
  | case1 => exact Nat.le_refl _
  | case2 rest => exact Nat.le_succ _
  | case3 rest => exact Nat.le_succ _
  | case4 rest d r ih => exact Nat.le_succ_of_le ih
  | case5 depth rest r ih => exact Nat.le_succ_of_le ih
  | case6 depth t rest _ _ _ r ih => exact Nat.le_succ_of_le ih

theorem splitArgs_length (ts : List Token) : (splitArgs ts).2.length ≤ ts.length := by
  unfold splitArgs
  split
  · have := splitParens_length 0 ‹_›
    simp only [List.length_cons]
    omega
  · exact Nat.le_refl _

def build (b : Builder) : List Token → Builder
  | [] => b
  | .eof :: _ => b
  | .text s :: ts => build (b.addText s) ts
  | .echoStart :: ts =>
    have := splitAtToken_length (fun t => t = .echoEnd || t = .eof) ts
    let r := splitAtToken (fun t => t = .echoEnd || t = .eof) ts
    build (b.add (.echo (Text.trim r.1))) r.2
  | .directive name :: ts =>
    if "end".toList.isPrefixOf name.toList then
      if b.closes (name.toList.drop 3) then build b.closeBlock ts
      else build (b.addText ("@" ++ name)) ts
    else
      have := splitArgs_length ts
      let r := splitArgs ts
      build (b.directive name r.1) r.2
  | .tagOpen name :: ts =>
    have := splitAtToken_length (fun t => t = .tagClose || t = .eof) ts
    let r := splitAtToken (fun t => t = .tagClose || t = .eof) ts
    build (b.tag name r.1.toList) r.2
  | .tagEnd name :: ts =>
    if b.closesTag name then build b.closeBlock ts
    else build (b.addText ("</" ++ name ++ ">")) ts
  | .parenStart :: ts => build (b.addText "(") ts
  | .parenEnd :: ts => build (b.addText ")") ts
  | .tagClose :: ts => build (b.addText ">") ts
  | .echoEnd :: ts => build (b.addText "\x7d\x7d") ts
termination_by ts => ts.length
decreasing_by all_goals simp_all; try omega

def parse (source : String) : Node :=
  let b := build {} (Token.tokenize source)
  .root (Builder.finish b.frames b.top)

end Node

end LiveMarkup
