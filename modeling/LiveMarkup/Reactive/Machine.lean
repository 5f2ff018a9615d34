import LiveMarkup.Reactive.Program

/-!
# The machine

The world holds the heap, the dependency registry, the effects with their nesting depths, the
running effect, the log and the application's state. Running a program performs its operations on
the world one after the other; a change to a container runs, at once and in subscription order,
every effect that depends on what changed.

Effects may trigger themselves and each other. A run nested inside another run of the same effect
is reported, and a run nested deeper than the limit is refused. Calls, unlike programs, need not
end, so the machine runs with a bound on how deep calls may nest; where the bound is reached there
is no result, and a larger bound never changes a result. There is none either where a question has
no answer.
-/

namespace LiveMarkup

/-- An effect: its code, until it is disposed of, and how many of its runs are under way. -/
structure EffectCell (Code : Type) where
  body : Option Code
  depth : Nat := 0

structure World (S : Signature) where
  heap : Heap := .empty
  registry : Registry := .empty
  effects : Array (EffectCell S.Code) := #[]
  active : Option EffectId := none
  maxDepth : Nat := 32
  log : Array LogLine := #[]
  state : S.State

/-- Runs a piece of code in a world. No result means that the bound on nesting was reached, or that a
question had no answer. -/
abbrev Caller (S : Signature) :=
  (c : S.Code) → World S → Option (S.Reply c × World S)

namespace World

variable {S : Signature}

def effectBody (w : World S) (e : EffectId) : Option S.Code :=
  w.effects[e.index]?.bind (·.body)

def effectDepth (w : World S) (e : EffectId) : Nat :=
  (w.effects[e.index]?.map (·.depth)).getD 0

def write (w : World S) (lines : List LogLine) : World S :=
  { w with log := w.log ++ lines.toArray }

def track (w : World S) (s : Slot) : World S :=
  match w.active with
  | none => w
  | some e => { w with registry := w.registry.track e s }

def trackAll (w : World S) (slots : List Slot) : World S :=
  slots.foldl track w

def modifyDepth (w : World S) (e : EffectId) (f : Nat → Nat) : World S :=
  { w with effects := w.effects.modify e.index fun c => { c with depth := f c.depth } }

/-- Ends an effect: it depends on nothing any more and will not run again. -/
def dispose (w : World S) (e : EffectId) : World S :=
  match w.effectBody e with
  | none => w
  | some _ =>
    { w with
      registry := w.registry.clearDependencies e
      effects := w.effects.modify e.index fun c => { c with body := none } }

/-- Runs code with `e` as the running effect and puts the previous one back afterwards. -/
def runWithin (call : Caller S) (e : Option EffectId) (c : S.Code) (w : World S) :
    Option (S.Reply c × World S) :=
  match call c { w with active := e } with
  | none => none
  | some (r, w') => some (r, { w' with active := w.active })

/-- The world in which the body of an effect begins to run: the run is counted, and reported if it
is nested in another one; the old dependencies are dropped, and the effect is the running one. -/
def enter (w : World S) (e : EffectId) : World S :=
  let noted := if 1 < w.effectDepth e + 1 then w.write [.event .effectReentered] else w
  { noted.modifyDepth e (· + 1) with
    registry := noted.registry.clearDependencies e
    active := some e }

/-- The world after a run of an effect whose body ended in `w`; `before` was running before. -/
def leave (w : World S) (e : EffectId) (before : Option EffectId) : World S :=
  { w with active := before }.modifyDepth e (· - 1)

/-- Runs an effect: its old dependencies are dropped, and those of this run are recorded. Runs
beyond the depth limit are refused, and effects that were disposed of do nothing. -/
def runEffect (call : Caller S) (e : EffectId) (w : World S) : Option (World S) :=
  match w.effectBody e with
  | none => some w
  | some body =>
    if w.maxDepth < w.effectDepth e + 1 then some (w.write [.event .effectTooDeep])
    else (call body (w.enter e)).map fun r => r.2.leave e w.active

def runEffects (call : Caller S) : List EffectId → World S → Option (World S)
  | [], w => some w
  | e :: rest, w =>
    match runEffect call e w with
    | none => none
    | some w => runEffects call rest w

/-- Runs the effects that depend on a slot, as they stand when it is triggered. -/
def trigger (call : Caller S) (s : Slot) (w : World S) : Option (World S) :=
  runEffects call (w.registry.subscribersOf s) w

def triggerAll (call : Caller S) : List Slot → World S → Option (World S)
  | [], w => some w
  | s :: rest, w =>
    match trigger call s w with
    | none => none
    | some w => triggerAll call rest w

def newEffect (w : World S) (c : S.Code) : EffectId × World S :=
  (⟨w.effects.size⟩, { w with effects := w.effects.push { body := some c } })

end World

def Op.perform {S : Signature} (call : Caller S) :
    (op : Op S) → World S → Option (op.Reply × World S)
  | .read q, w => (q.answer w.heap).map fun (a, slots) => (a, w.trackAll slots)
  | .peek q, w => (q.answer w.heap).map fun (a, _) => (a, w)
  | .write u, w =>
    let (r, heap, slots) := u.apply w.heap
    (World.triggerAll call slots { w with heap := heap }).map fun w => (r, w)
  | .newObject fields, w =>
    let (o, heap) := w.heap.newObject fields
    some (o, { w with heap := heap })
  | .newList items, w =>
    let (l, heap) := w.heap.newList items
    some (l, { w with heap := heap })
  | .newHost h, w =>
    let (i, heap) := w.heap.newHost h
    some (i, { w with heap := heap })
  | .call c, w => call c w
  | .within e c, w => World.runWithin call e c w
  | .spawn c, w =>
    let (e, w) := w.newEffect c
    (World.runEffect call e w).map fun w => (e, w)
  | .rerun e, w => (World.runEffect call e w).map fun w => ((), w)
  | .dispose e, w => some ((), w.dispose e)
  | .isDisposed e, w => some ((w.effectBody e).isNone, w)
  | .active, w => some (w.active, w)
  | .track s, w => some ((), w.track s)
  | .trigger s, w => (World.trigger call s w).map fun w => ((), w)
  | .subscriberCount s, w => some ((w.registry.subscribersOf s).length, w)
  | .hasTarget c, w => some (w.registry.hasTarget c, w)
  | .dependencyCount e, w => some ((w.registry.dependenciesOf e).length, w)
  | .clearDependencies e, w =>
    some ((), { w with registry := w.registry.clearDependencies e })
  | .maxDepth, w => some (w.maxDepth, w)
  | .setMaxDepth n, w => some ((), { w with maxDepth := max n 1 })
  | .log lines, w => some ((), w.write lines)
  | .get, w => some (w.state, w)
  | .modify f, w => some (w.state, { w with state := f w.state })

namespace Program

variable {S : Signature} {α : Type}

/-- Runs a program in a world, with `call` for the code it calls. -/
def run (call : Caller S) : Program S α → World S → Option (α × World S)
  | .done a, w => some (a, w)
  | .step op next, w =>
    match op.perform call w with
    | none => none
    | some (r, w) => (next r).run call w

end Program

abbrev Semantics (S : Signature) :=
  (c : S.Code) → Program S (S.Reply c)

/-- Runs code whose calls nest less than `bound` deep. -/
def Semantics.caller {S : Signature} (sem : Semantics S) : Nat → Caller S
  | 0 => fun _ _ => none
  | bound + 1 => fun c w => (sem c).run (sem.caller bound) w

/-- Runs a program whose calls nest at most `bound` deep. -/
def Program.exec {S : Signature} {α : Type} (p : Program S α) (sem : Semantics S) (bound : Nat)
    (w : World S) : Option (α × World S) :=
  p.run (sem.caller bound) w

end LiveMarkup
