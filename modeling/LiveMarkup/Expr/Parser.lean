import LiveMarkup.Expr.Token
import LiveMarkup.Value.Number

/-!
# Reading expressions

An operand is a primary expression with its accesses and calls, or a prefix operator in front of
an operand. Operators between operands bind by their powers: an operator goes on with the operand
to its left as long as its left power is not below the power asked for, and takes everything to
its right that binds at least as tightly as its right power.

Every function gives back what is left of the tokens, with the fact that this is less than it was
given; the recursion ends for that reason.
-/

namespace LiveMarkup.ExprParser

open LiveMarkup

/-- What is left of `ts` once something was read. -/
abbrev Rest (ts : List ExprToken) :=
  { r : List ExprToken // r.length < ts.length }

/-- What is left of `ts` when perhaps nothing was read. -/
abbrev Tail (ts : List ExprToken) :=
  { r : List ExprToken // r.length ≤ ts.length }

/-- How tightly an operator binds to its left and to its right. -/
structure Power where
  left : Nat
  right : Nat

def Power.leftward (p : Nat) : Power := ⟨p, p + 1⟩

def Power.rightward (p : Nat) : Power := ⟨p + 1, p⟩

inductive Infix where
  | binary (op : BinaryOp)
  | logical (op : LogicalOp)
  | conditional

def infixOf : Punct → Option (Infix × Power)
  | .question => some (.conditional, .rightward 6)
  | .nullish => some (.logical .nullish, .leftward 8)
  | .orOr => some (.logical .or, .leftward 10)
  | .andAnd => some (.logical .and, .leftward 12)
  | .looseEqual => some (.binary .looseEqual, .leftward 20)
  | .looseNotEqual => some (.binary .looseNotEqual, .leftward 20)
  | .strictEqual => some (.binary .strictEqual, .leftward 20)
  | .strictNotEqual => some (.binary .strictNotEqual, .leftward 20)
  | .less => some (.binary .less, .leftward 22)
  | .lessEqual => some (.binary .lessEqual, .leftward 22)
  | .greater => some (.binary .greater, .leftward 22)
  | .greaterEqual => some (.binary .greaterEqual, .leftward 22)
  | .plus => some (.binary .add, .leftward 26)
  | .minus => some (.binary .subtract, .leftward 26)
  | .star => some (.binary .multiply, .leftward 28)
  | .slash => some (.binary .divide, .leftward 28)
  | .percent => some (.binary .remainder, .leftward 28)
  | _ => none

def prefixOf : ExprToken → Option UnaryOp
  | .punct .bang => some .not
  | .punct .minus => some .negate
  | .punct .plus => some .plus
  | .name "typeof" => some .typeof
  | _ => none

/-- The expression of a bare word: four words are literals. -/
def wordExpr (n : String) : Expr :=
  match n with
  | "true" => .bool true
  | "false" => .bool false
  | "null" => .null
  | "undefined" => .undefined
  | _ => .name n

def startsWith (p : Punct) : List ExprToken → Bool
  | .punct q :: _ => p = q
  | _ => false

def expect (p : Punct) : (ts : List ExprToken) → Except ExprError (Rest ts)
  | [] => .error .unexpectedEnd
  | t :: r =>
    if startsWith p [t] then .ok ⟨r, by simp⟩
    else .error (.unexpectedToken t.describe ("'" ++ p.text ++ "'"))

/-- The key of an object entry, and whether it can stand for itself. -/
def entryKey : ExprToken → Option (String × Bool)
  | .name n => some (n, true)
  | .text s => some (s, false)
  | .number x => some (Number.text x, false)
  | .punct _ => none

mutual

/-- Reads an expression whose operators bind at least as tightly as `power`. -/
def expression (power : Nat) (ts : List ExprToken) : Except ExprError (Expr × Rest ts) := do
  let (left, r) ← operand ts
  let (e, r') ← operators power left r.1
  return (e, ⟨r'.1, Nat.lt_of_le_of_lt r'.2 r.2⟩)
termination_by (ts.length, 3)

/-- Reads operators and their right operands behind `left`. -/
def operators (power : Nat) (left : Expr) (ts : List ExprToken) :
    Except ExprError (Expr × Tail ts) :=
  match ts with
  | .punct p :: rest =>
    match infixOf p with
    | none => return (left, ⟨.punct p :: rest, Nat.le_refl _⟩)
    | some (op, bind) =>
      if bind.left < power then return (left, ⟨.punct p :: rest, Nat.le_refl _⟩)
      else
        match op with
        | .binary op => do
          let (right, r) ← expression bind.right rest
          let (e, r') ← operators power (.binary op left right) r.1
          return (e, ⟨r'.1, by have := r.2; have := r'.2; simp only [List.length_cons]; omega⟩)
        | .logical op => do
          let (right, r) ← expression bind.right rest
          let (e, r') ← operators power (.logical op left right) r.1
          return (e, ⟨r'.1, by have := r.2; have := r'.2; simp only [List.length_cons]; omega⟩)
        | .conditional => do
          let (yes, r) ← expression 0 rest
          let r1 ← expect .colon r.1
          let (no, r2) ← expression bind.right r1.1
          let (e, r') ← operators power (.conditional left yes no) r2.1
          return (e, ⟨r'.1, by
            have := r.2; have := r1.2; have := r2.2; have := r'.2
            simp only [List.length_cons]; omega⟩)
  | rest => return (left, ⟨rest, Nat.le_refl _⟩)
termination_by (ts.length, 4)
decreasing_by all_goals simp_wf; (try have := r.2); (try have := r1.2); (try have := r2.2); omega

def operand (ts : List ExprToken) : Except ExprError (Expr × Rest ts) :=
  match ts with
  | [] => .error .unexpectedEnd
  | t :: rest =>
    match prefixOf t with
    | some op => do
      let (e, r) ← operand rest
      return (.unary op e, ⟨r.1, Nat.lt_succ_of_lt r.2⟩)
    | none => do
      let (e, r) ← primary (t :: rest)
      let (e', r') ← accesses e r.1
      return (e', ⟨r'.1, Nat.lt_of_le_of_lt r'.2 r.2⟩)
termination_by (ts.length, 2)
decreasing_by all_goals simp_wf; (try have := r.2; simp only [List.length_cons] at this); omega

/-- Reads a literal, a name, or something in brackets. -/
def primary (ts : List ExprToken) : Except ExprError (Expr × Rest ts) :=
  match ts with
  | [] => .error .unexpectedEnd
  | .number x :: rest => return (.number x, ⟨rest, by simp⟩)
  | .text s :: rest => return (.text s, ⟨rest, by simp⟩)
  | .name n :: rest => return (wordExpr n, ⟨rest, by simp⟩)
  | .punct .parenOpen :: rest => do
    let (e, r) ← expression 0 rest
    let r' ← expect .parenClose r.1
    return (e, ⟨r'.1, by have := r.2; have := r'.2; simp only [List.length_cons]; omega⟩)
  | .punct .bracketOpen :: rest => do
    let (items, r) ← itemsUntil .bracketClose rest
    return (.list items, ⟨r.1, Nat.lt_succ_of_lt r.2⟩)
  | .punct .braceOpen :: rest => do
    let (entries, r) ← entriesUntilBrace rest
    return (.object entries, ⟨r.1, Nat.lt_succ_of_lt r.2⟩)
  | .punct p :: _ => .error (.unexpectedToken p.text "an expression")
termination_by (ts.length, 1)

/-- Reads accesses and calls behind `e`. -/
def accesses (e : Expr) (ts : List ExprToken) : Except ExprError (Expr × Tail ts) :=
  match ts with
  | .punct .dot :: rest =>
    match rest with
    | [] => .error .unexpectedEnd
    | .name n :: rest => do
      let (e', r) ← accesses (.member e n) rest
      return (e', ⟨r.1, by have := r.2; simp only [List.length_cons]; omega⟩)
    | t :: _ => .error (.unexpectedToken t.describe "a property name")
  | .punct .bracketOpen :: rest => do
    let (key, r) ← expression 0 rest
    let r1 ← expect .bracketClose r.1
    let (e', r') ← accesses (.index e key) r1.1
    return (e', ⟨r'.1, by
      have := r.2; have := r1.2; have := r'.2; simp only [List.length_cons]; omega⟩)
  | .punct .parenOpen :: rest => do
    let (args, r) ← itemsUntil .parenClose rest
    let (e', r') ← accesses (.call e args) r.1
    return (e', ⟨r'.1, by have := r.2; have := r'.2; simp only [List.length_cons]; omega⟩)
  | rest => return (e, ⟨rest, Nat.le_refl _⟩)
termination_by (ts.length, 0)
decreasing_by all_goals simp_wf; (try have := r.2); (try have := r1.2); omega

/-- Reads expressions with commas between them, up to and with the mark `close`. A comma may stand
behind the last one. -/
def itemsUntil (close : Punct) (ts : List ExprToken) :
    Except ExprError (List Expr × Rest ts) :=
  if startsWith close ts then do
    let r ← expect close ts
    return ([], r)
  else do
    let (item, r) ← expression 0 ts
    if startsWith .comma r.1 then
      let r1 ← expect .comma r.1
      let (items, r2) ← itemsUntil close r1.1
      return (item :: items, ⟨r2.1, by have := r.2; have := r1.2; have := r2.2; omega⟩)
    else
      let r1 ← expect close r.1
      return ([item], ⟨r1.1, Nat.lt_trans r1.2 r.2⟩)
termination_by (ts.length, 5)
decreasing_by all_goals (try have := r.2); (try have := r1.2); omega

/-- Reads the entries of an object, up to and with the closing brace. -/
def entriesUntilBrace (ts : List ExprToken) :
    Except ExprError (List (String × Expr) × Rest ts) :=
  match ts with
  | [] => .error .unexpectedEnd
  | .punct .braceClose :: rest => return ([], ⟨rest, by simp⟩)
  | t :: rest =>
    match entryKey t with
    | none => .error (.unexpectedToken t.describe "a property key")
    | some (key, shorthand) => do
      let (e, r) ← entryValue key shorthand rest
      if startsWith .comma r.1 then
        let r1 ← expect .comma r.1
        let (entries, r2) ← entriesUntilBrace r1.1
        return ((key, e) :: entries, ⟨r2.1, by
          have := r.2; have := r1.2; have := r2.2; simp only [List.length_cons]; omega⟩)
      else
        let r1 ← expect .braceClose r.1
        return ([(key, e)], ⟨r1.1, by
          have := r.2; have := r1.2; simp only [List.length_cons]; omega⟩)
termination_by (ts.length, 5)
decreasing_by all_goals simp_wf; (try have := r.2); (try have := r1.2); omega

/-- Reads the value of an entry: what stands behind a colon, or the key itself as a name. -/
def entryValue (key : String) (shorthand : Bool) (ts : List ExprToken) :
    Except ExprError (Expr × Tail ts) :=
  if shorthand && !startsWith .colon ts then return (.name key, ⟨ts, Nat.le_refl _⟩)
  else do
    let r ← expect .colon ts
    let (e, r') ← expression 0 r.1
    return (e, ⟨r'.1, by have := r.2; have := r'.2; omega⟩)
termination_by (ts.length, 4)
decreasing_by all_goals (try have := r.2); omega

end

end LiveMarkup.ExprParser

namespace LiveMarkup

def Expr.parse (source : String) : Except ExprError Expr := do
  let ts ← ExprToken.tokenize source
  if ts.isEmpty then throw .empty
  let (e, r) ← ExprParser.expression 0 ts
  match r.1 with
  | [] => return e
  | t :: _ => throw (.unexpectedToken t.describe "end of expression")

end LiveMarkup
