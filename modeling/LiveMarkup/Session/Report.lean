import LiveMarkup.Heap.Snapshot
import LiveMarkup.Reactive.Overflow
import LiveMarkup.Session.Run

/-!
# Running sessions

A session starts in an empty world and takes statements one after the other. For each it reports
the result, what was logged meanwhile, and the targets that look different from when they were last
reported. A failing statement does not stop the next one.
-/

namespace LiveMarkup

def Outcome.snapshot (h : Heap) : Outcome Value → Option (Outcome Snapshot)
  | .nothing => some .nothing
  | .value v => (h.snapshot v).map .value
  | .gaveBack v => (h.snapshot v).map .gaveBack
  | .optional none => some (.optional none)
  | .optional (some v) => (h.snapshot v).map fun s => .optional (some s)
  | .flag b => some (.flag b)
  | .count n => some (.count n)
  | .text s => some (.text s)
  | .settings s => some (.settings s)
  | .definition name props isProp layout => some (.definition name props isProp layout)
  | .rendered r => some (.rendered r)

structure StepReport where
  result : Except Failure (Outcome Snapshot)
  log : List String
  /-- Targets that look different, by selector. -/
  targets : List (String × TargetView)

namespace Session

abbrev Stage := World client.signature

def start : Stage :=
  { state := { client := {} } }

def nestingBound : Nat :=
  1000000

/-- What comes of an activity, or why nothing does. -/
abbrev Ending (α : Type) := Except Halt α

def perform {α : Type} (p : Act α) (w : Stage) : Ending (α × Stage) :=
  p.perform? (View.semantics behaviour) nestingBound w

/-- A written form; a value that has none is written without end. -/
def written {α : Type} (x : Option α) : Ending α :=
  x.elim (.error .endless) .ok

def changedView (s : ViewState client) (selector : String) (t : TargetId) :
    Option (String × TargetView) :=
  let now := TargetView.ofTarget (s.targets[t.index]?.getD {})
  if s.client.shown.get? selector == some now then none else some (selector, now)

/-- The targets that look different, which are taken for reported from now on. -/
def reportTargets : Act (List (String × TargetView)) := do
  let s ← View.get
  let changed := s.document.entries.filterMap fun e => changedView s e.1 e.2
  modify fun s => { s with shown := s.shown.insertAll changed }
  return changed

def logLines (w : Stage) : List String :=
  w.log.toList.map LogLine.text

def step (s : Statement) (w : Stage) : Ending (StepReport × Stage) := do
  let (r, w) ← perform (exec {} s).run { w with log := #[] }
  let (targets, w) ← perform reportTargets w
  match r with
  | .error f => return (⟨.error f, logLines w, targets⟩, w)
  | .ok o =>
    let shown ← written (o.snapshot w.heap)
    return (⟨.ok shown, logLines w, targets⟩, w)

def steps : List Statement → Stage → Ending (List StepReport × Stage)
  | [], w => .ok ([], w)
  | s :: rest, w => do
    let (r, w) ← step s w
    let (rs, w) ← steps rest w
    return (r :: rs, w)

def run (vars : List (String × Literal)) (script : Script) : Ending (List StepReport) := do
  let (_, w) ← perform (defineVars vars) start
  let (reports, _) ← steps script w
  return reports

end Session

end LiveMarkup
