/-!
# Tokens of templates

The source of a template is cut into tokens without regard to what surrounds them: `>` always
closes a tag and parentheses are always parentheses. Whoever puts the tokens together decides what
they mean, and turns those that mean nothing back into text. Nothing is lost on the way: the
source is the concatenation of the texts of its tokens.
-/

namespace LiveMarkup

inductive Token where
  | text (s : String)
  | echoStart
  | echoEnd
  | directive (name : String)
  | parenStart
  | parenEnd
  /-- The start of a component tag; the name includes `x-`. -/
  | tagOpen (name : String)
  | tagClose
  /-- A closing component tag; the name includes `x-`. -/
  | tagEnd (name : String)
  | eof
deriving DecidableEq, Inhabited

namespace Token

def source : Token → String
  | .text s => s
  | .echoStart => "\x7b\x7b"
  | .echoEnd => "\x7d\x7d"
  | .directive name => "@" ++ name
  | .parenStart => "("
  | .parenEnd => ")"
  | .tagOpen name => "<" ++ name
  | .tagClose => ">"
  | .tagEnd name => "</" ++ name ++ ">"
  | .eof => ""

end Token

/-! ## The lexer

A source is read by its bytes, and where the lexer stands in it is a position among them. All
markers are ASCII, so none of their bytes is found inside another character. -/

namespace Lexer

def isDirectiveByte (b : UInt8) : Bool :=
  let c := Char.ofUInt8 b
  c.isAlphanum || c == '_'

def isTagByte (b : UInt8) : Bool :=
  let c := Char.ofUInt8 b
  c.isAlphanum || c == '-' || c == '.'

def startsAt (bytes : ByteArray) (pos : Nat) (pattern : String) : Bool :=
  (bytes.extract pos (pos + pattern.utf8ByteSize)).data == pattern.toByteArray.data

/-- The first position, from one on, with a byte that is not accepted. -/
def scanWhile (bytes : ByteArray) (accept : UInt8 → Bool) (pos : Nat) : Nat :=
  if h : pos < bytes.size then
    if accept bytes[pos] then scanWhile bytes accept (pos + 1) else pos
  else pos

def markers : List String :=
  ["\x7b\x7b", "\x7d\x7d", "<x-", "</x-", "@", "(", ")", ">"]

/-- Whether something other than plain text may start here. -/
def markerAt (bytes : ByteArray) (pos : Nat) : Bool :=
  markers.any (startsAt bytes pos)

/-- The first position, from one on, where something other than plain text may start. -/
def textEnd (bytes : ByteArray) (pos : Nat) : Nat :=
  if pos < bytes.size ∧ markerAt bytes pos = false then textEnd bytes (pos + 1) else pos
termination_by bytes.size - pos

/-- The first position, from one on, at which a character begins. -/
def boundary (bytes : ByteArray) (pos : Nat) : Nat :=
  if h : pos < bytes.size then
    if bytes[pos].IsUTF8FirstByte then pos else boundary bytes (pos + 1)
  else pos

/-- The text between two positions at which characters begin. -/
def slice (bytes : ByteArray) (start stop : Nat) : String :=
  (String.fromUTF8? (bytes.extract start stop)).getD ""

def fixed? (bytes : ByteArray) (pos : Nat) (pattern : String) (t : Token) :
    Option (Token × Nat) :=
  if startsAt bytes pos pattern then some (t, pos + pattern.utf8ByteSize) else none

/-- A directive. A lone `@` is none. -/
def directive? (bytes : ByteArray) (pos : Nat) : Option (Token × Nat) :=
  if startsAt bytes pos "@" then
    let stop := scanWhile bytes isDirectiveByte (pos + 1)
    if pos + 1 < stop then some (.directive (slice bytes (pos + 1) stop), stop) else none
  else none

def tagOpen? (bytes : ByteArray) (pos : Nat) : Option (Token × Nat) :=
  if startsAt bytes pos "<x-" then
    let stop := scanWhile bytes isTagByte (pos + 3)
    some (.tagOpen (slice bytes (pos + 1) stop), stop)
  else none

/-- A closing tag. One that is not closed itself is none. -/
def tagEnd? (bytes : ByteArray) (pos : Nat) : Option (Token × Nat) :=
  if startsAt bytes pos "</x-" then
    let stop := scanWhile bytes isTagByte (pos + 4)
    if startsAt bytes stop ">" then some (.tagEnd (slice bytes (pos + 2) stop), stop + 1) else none
  else none

/-- What stands at a position other than text, and where it ends; the first that fits. -/
def marker? (bytes : ByteArray) (pos : Nat) : Option (Token × Nat) :=
  (fixed? bytes pos "\x7b\x7b" .echoStart).or <|
  (fixed? bytes pos "\x7d\x7d" .echoEnd).or <|
  (directive? bytes pos).or <|
  (tagOpen? bytes pos).or <|
  (tagEnd? bytes pos).or <|
  (fixed? bytes pos ">" .tagClose).or <|
  (fixed? bytes pos "(" .parenStart).or <|
  fixed? bytes pos ")" .parenEnd

/-- Text up to the next marker. Its first byte is taken whatever it is. -/
def text (bytes : ByteArray) (pos : Nat) : Token × Nat :=
  let stop := boundary bytes (textEnd bytes (pos + 1))
  (.text (slice bytes pos stop), stop)

/-- The token at a position, and where it ends. -/
def next (bytes : ByteArray) (pos : Nat) : Token × Nat :=
  if bytes.size ≤ pos then (.eof, pos) else (marker? bytes pos).getD (text bytes pos)

section Progress

variable {bytes : ByteArray} {pos : Nat}

theorem le_scanWhile (accept : UInt8 → Bool) : pos ≤ scanWhile bytes accept pos := by
  fun_induction scanWhile <;> omega

theorem le_textEnd : pos ≤ textEnd bytes pos := by
  fun_induction textEnd <;> omega

theorem le_boundary : pos ≤ boundary bytes pos := by
  fun_induction boundary <;> omega

theorem lt_of_fixed? {pattern : String} {t : Token} {r : Token × Nat}
    (hp : 0 < pattern.utf8ByteSize) (h : fixed? bytes pos pattern t = some r) : pos < r.2 := by
  unfold fixed? at h
  split at h <;> cases h
  exact Nat.lt_add_of_pos_right hp

theorem lt_of_marker? {r : Token × Nat} (h : marker? bytes pos = some r) : pos < r.2 := by
  simp only [marker?, Option.or_eq_some_iff] at h
  rcases h with h | ⟨-, h | ⟨-, h | ⟨-, h | ⟨-, h | ⟨-, h | ⟨-, h | ⟨-, h⟩⟩⟩⟩⟩⟩⟩
  case inr.inr.inl =>
    simp only [directive?] at h
    split at h
    · split at h <;> cases h
      exact Nat.lt_of_succ_lt ‹_›
    · cases h
  case inr.inr.inr.inl =>
    simp only [tagOpen?] at h
    split at h <;> cases h
    exact Nat.lt_of_lt_of_le (by omega) (le_scanWhile isTagByte)
  case inr.inr.inr.inr.inl =>
    simp only [tagEnd?] at h
    split at h
    · split at h <;> cases h
      have := @le_scanWhile bytes (pos + 4) isTagByte
      omega
    · cases h
  all_goals exact lt_of_fixed? (by decide) h

/-- Before the end of the source every token takes at least one byte. -/
theorem lt_next (h : pos < bytes.size) : pos < (next bytes pos).2 := by
  rw [next, if_neg (Nat.not_le_of_lt h)]
  cases hm : marker? bytes pos with
  | some r => exact lt_of_marker? hm
  | none => exact Nat.lt_of_lt_of_le (Nat.lt_succ_self pos) (Nat.le_trans le_textEnd le_boundary)

theorem lt_size_of_next (h : (next bytes pos).1 ≠ .eof) : pos < bytes.size := by
  refine Nat.lt_of_not_le fun hle => h ?_
  rw [next, if_pos hle]

end Progress

/-- The tokens from a position on, up to and with the end. -/
def tokens (bytes : ByteArray) (pos : Nat) : List Token :=
  if h : (next bytes pos).1 = .eof then [.eof]
  else
    have := lt_next (lt_size_of_next h)
    (next bytes pos).1 :: tokens bytes (next bytes pos).2
termination_by bytes.size - pos
decreasing_by
  have := lt_size_of_next h
  omega

end Lexer

def Token.tokenize (source : String) : List Token :=
  Lexer.tokens source.toByteArray 0

end LiveMarkup
