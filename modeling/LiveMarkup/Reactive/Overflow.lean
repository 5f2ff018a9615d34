import LiveMarkup.Reactive.Machine

/-!
# Why a run has no result

A run has no result when calls or conversions nest without end, or when a count grows beyond a
machine word. The second ends the program then and there, so whoever runs a program wants to know
which of the two it was. A run that has no result is followed to the operation that it stopped at,
into the code and the effects that were running there.
-/

namespace LiveMarkup

/-- Whether a piece of code that has no result stops at an overflow. -/
abbrev Alarm (S : Signature) :=
  (c : S.Code) → World S → Bool

section

variable {S : Signature} (call : Caller S) (alarm : Alarm S)

namespace World

/-- Whether an effect whose run has no result stops at an overflow. -/
def effectOverflows (e : EffectId) (w : World S) : Bool :=
  (w.effectBody e).any fun c => alarm c (w.enter e)

def effectsOverflow : List EffectId → World S → Bool
  | [], _ => false
  | e :: rest, w =>
    match runEffect call e w with
    | none => effectOverflows alarm e w
    | some w => effectsOverflow rest w

def slotsOverflow : List Slot → World S → Bool
  | [], _ => false
  | s :: rest, w =>
    match trigger call s w with
    | none => effectsOverflow call alarm (w.registry.subscribersOf s) w
    | some w => slotsOverflow rest w

end World

/-- Whether an operation that has no result stops at an overflow. -/
def Op.overflows : Op S → World S → Bool
  | .read q, _ => q.overflows
  | .peek q, _ => q.overflows
  | .write u, w =>
    let (_, heap, slots) := u.apply w.heap
    World.slotsOverflow call alarm slots { w with heap := heap }
  | .call c, w => alarm c w
  | .within e c, w => alarm c { w with active := e }
  | .spawn c, w =>
    let (e, w) := w.newEffect c
    World.effectOverflows alarm e w
  | .rerun e, w => World.effectOverflows alarm e w
  | .trigger s, w => World.effectsOverflow call alarm (w.registry.subscribersOf s) w
  | _, _ => false

/-- Whether a program has no result because it stops at an overflow. -/
def Program.overflows {α : Type} : Program S α → World S → Bool
  | .done _, _ => false
  | .step op next, w =>
    match op.perform call w with
    | none => op.overflows call alarm w
    | some (r, w) => (next r).overflows w

end

/-- Whether code whose calls nest less than `bound` deep stops at an overflow. -/
def Semantics.alarm {S : Signature} (sem : Semantics S) : Nat → Alarm S
  | 0 => fun _ _ => false
  | bound + 1 => fun c w => (sem c).overflows (sem.caller bound) (sem.alarm bound) w

/-- Why a run has no result. -/
inductive Halt where
  | endless
  | overflow
deriving DecidableEq

/-- The result of a program whose calls nest at most `bound` deep, or why there is none. -/
def Program.perform? {S : Signature} {α : Type} (p : Program S α) (sem : Semantics S)
    (bound : Nat) (w : World S) : Except Halt (α × World S) :=
  match p.exec sem bound w with
  | some r => .ok r
  | none =>
    .error (if p.overflows (sem.caller bound) (sem.alarm bound) w then .overflow else .endless)

end LiveMarkup
