import LiveMarkup.Text.Blank

/-!
# Interaction markers in markup

Rendered markup marks where it wants to be interactive: `data-z-click="method"` and
`data-z-model="path"` inside opening tags. The markers are collected as bindings, numbered by kind
in document order, and taken out of the markup together with the blanks before them.

An opening tag runs from `<` and a letter to the next `>` outside quotes. A tag with a quote that
is never closed is no tag, so markers in it stay where they are.
-/

namespace LiveMarkup

inductive BindingKind where
  | click
  | model
deriving DecidableEq

def BindingKind.word : BindingKind → String
  | .click => "Click"
  | .model => "Model"

structure Binding where
  kind : BindingKind
  /-- A method for clicks, a dotted path for models. -/
  target : String
  /-- Position among the bindings of the same kind. -/
  ordinal : Nat
  checkbox : Bool
deriving DecidableEq

/-- Markup without markers, and the bindings that they stood for. -/
structure Extracted where
  markup : String
  bindings : List Binding
deriving DecidableEq

namespace Binding

def tagRest (quote : Option Char) : List Char → Option (List Char × List Char)
  | [] => none
  | c :: cs =>
    match quote with
    | some q => (tagRest (if c == q then none else some q) cs).map fun r => (c :: r.1, r.2)
    | none =>
      if c == '>' then some (['>'], cs)
      else if c == '<' then none
      else
        let quote := if c == '"' || c == '\'' then some c else none
        (tagRest quote cs).map fun r => (c :: r.1, r.2)

def tag? : List Char → Option (List Char × List Char)
  | '<' :: c :: cs =>
    if c.isAlpha then (tagRest none cs).map fun r => ('<' :: c :: r.1, r.2) else none
  | _ => none

def marker (k : BindingKind) : List Char :=
  match k with
  | .click => "data-z-click=\"".toList
  | .model => "data-z-model=\"".toList

/-- The target of a marker of the given kind, and what follows its closing quote. -/
def target? (k : BindingKind) (cs : List Char) : Option (List Char × List Char) :=
  if (marker k).isPrefixOf cs then
    let rest := cs.drop (marker k).length
    match rest.dropWhile (· != '"') with
    | _ :: more => some (rest.takeWhile (· != '"'), more)
    | [] => none
  else none

/-- The marker at the start of a text, blanks before it included, and what follows. -/
def marker? (cs : List Char) : Option ((BindingKind × String) × List Char) :=
  let cs := cs.dropWhile Text.isBlank
  match target? .click cs with
  | some (t, rest) => some ((.click, String.ofList t), rest)
  | none => (target? .model cs).map fun r => ((.model, String.ofList r.1), r.2)

theorem tagRest_length {quote : Option Char} {cs : List Char} {r : List Char × List Char}
    (h : tagRest quote cs = some r) : r.2.length < cs.length := by
  induction cs generalizing quote r with
  | nil => simp [tagRest] at h
  | cons c cs ih =>
    simp only [tagRest] at h
    split at h
    · obtain ⟨u, hu, rfl⟩ := Option.map_eq_some_iff.1 h
      have := ih hu
      exact Nat.lt_succ_of_lt this
    · split at h
      · simp only [Option.some.injEq] at h
        subst h
        simp
      · split at h
        · simp at h
        · obtain ⟨u, hu, rfl⟩ := Option.map_eq_some_iff.1 h
          have := ih hu
          exact Nat.lt_succ_of_lt this

theorem tag?_length {cs : List Char} {r : List Char × List Char} (h : tag? cs = some r) :
    r.2.length < cs.length := by
  unfold tag? at h
  split at h
  · split at h
    · obtain ⟨u, hu, rfl⟩ := Option.map_eq_some_iff.1 h
      have := tagRest_length hu
      simp only [List.length_cons]
      omega
    · simp at h
  · simp at h

theorem target?_length {k : BindingKind} {cs : List Char} {r : List Char × List Char}
    (h : target? k cs = some r) : r.2.length < cs.length := by
  unfold target? at h
  split at h
  · dsimp only at h
    split at h
    · rename_i c more hm
      simp only [Option.some.injEq] at h
      subst h
      have h1 : (c :: more).length ≤ (cs.drop (marker k).length).length := by
        rw [← hm]
        exact (List.dropWhile_suffix _).length_le
      simp only [List.length_cons, List.length_drop] at h1
      show more.length < cs.length
      omega
    · simp at h
  · simp at h

theorem marker?_length {cs : List Char} {r : (BindingKind × String) × List Char}
    (h : marker? cs = some r) : r.2.length < cs.length := by
  have hd : (cs.dropWhile Text.isBlank).length ≤ cs.length :=
    (List.dropWhile_suffix _).length_le
  unfold marker? at h
  dsimp only at h
  split at h
  · rename_i ht
    simp only [Option.some.injEq] at h
    subst h
    exact Nat.lt_of_lt_of_le (target?_length ht) hd
  · obtain ⟨u, hu, rfl⟩ := Option.map_eq_some_iff.1 h
    exact Nat.lt_of_lt_of_le (target?_length hu) hd

/-- The markers in the text of a tag, and the text without them. -/
def stripTag (cs : List Char) : List (BindingKind × String) × List Char :=
  match cs with
  | [] => ([], [])
  | c :: rest =>
    match h : marker? (c :: rest) with
    | some (m, more) =>
      have : more.length < (c :: rest).length := marker?_length h
      let r := stripTag more
      (m :: r.1, r.2)
    | none =>
      let r := stripTag rest
      (r.1, c :: r.2)
termination_by cs.length
decreasing_by
  · exact this
  · exact Nat.lt_succ_self _

/-- Whether a tag says that its field is a checkbox: `type`, an equals sign and the quoted word,
with blanks around the sign. -/
def checkboxAt (cs : List Char) : Bool :=
  let quoteThen (cs : List Char) (next : List Char → Bool) : Bool :=
    match cs with
    | c :: rest => (c == '"' || c == '\'') && next rest
    | [] => false
  "type".toList.isPrefixOf cs &&
    match (cs.drop 4).dropWhile Text.isBlank with
    | '=' :: rest =>
      quoteThen (rest.dropWhile Text.isBlank) fun rest =>
        "checkbox".toList.isPrefixOf rest && quoteThen (rest.drop 8) fun _ => true
    | _ => false

def mentionsCheckbox : List Char → Bool
  | [] => false
  | c :: cs => checkboxAt (c :: cs) || mentionsCheckbox cs

structure Count where
  clicks : Nat := 0
  models : Nat := 0

def number (checkbox : Bool) (n : Count) : List (BindingKind × String) → List Binding × Count
  | [] => ([], n)
  | (.click, t) :: rest =>
    let r := number checkbox { n with clicks := n.clicks + 1 } rest
    (⟨.click, t, n.clicks, false⟩ :: r.1, r.2)
  | (.model, t) :: rest =>
    let r := number checkbox { n with models := n.models + 1 } rest
    (⟨.model, t, n.models, checkbox⟩ :: r.1, r.2)

def extractFrom (n : Count) (cs : List Char) : List Char × List Binding :=
  match cs with
  | [] => ([], [])
  | c :: rest =>
    match h : tag? (c :: rest) with
    | some (tag, more) =>
      have : more.length < (c :: rest).length := tag?_length h
      let s := stripTag tag
      let b := number (mentionsCheckbox tag) n s.1
      let r := extractFrom b.2 more
      (s.2 ++ r.1, b.1 ++ r.2)
    | none =>
      let r := extractFrom n rest
      (c :: r.1, r.2)
termination_by cs.length
decreasing_by
  · exact this
  · exact Nat.lt_succ_self _

/-- Collects the bindings of a document and takes their markers out. -/
def extract (markup : String) : Extracted :=
  let r := extractFrom {} markup.toList
  ⟨String.ofList r.1, r.2⟩

end Binding

end LiveMarkup
