/-!
# What is worth reporting

Situations that do not stop a run but that somebody should hear of. Each has a level and a
wording.
-/

namespace LiveMarkup

inductive Level where
  | warn
  | error
deriving DecidableEq

def Level.word : Level → String
  | .warn => "WARN"
  | .error => "ERROR"

inductive Event where
  | effectReentered
  | effectTooDeep
  | templateFailed
  | renderFailed
  | componentFailed
  | layoutFailed
  | includeFailed
  | elementNotFound (selector : String)
  | clickFailed
  | hookOutsideInstance
  | serviceMissing
  | componentMissing
  | layoutMissing
  | viewMissing
  | dataNotObject
  | stateNotObject
  | mutationMissing
  | clickMethodMissing
  | modelPathBroken
deriving DecidableEq

namespace Event

def level : Event → Level
  | .effectTooDeep | .templateFailed | .renderFailed | .componentFailed | .layoutFailed
  | .includeFailed | .elementNotFound _ | .clickFailed => .error
  | .effectReentered | .hookOutsideInstance | .serviceMissing | .componentMissing
  | .layoutMissing | .viewMissing | .dataNotObject | .stateNotObject | .mutationMissing
  | .clickMethodMissing | .modelPathBroken => .warn

def message : Event → String
  | .effectReentered => "effect triggered while already running"
  | .effectTooDeep => "effect re-entered too deeply, skipping run"
  | .templateFailed => "Template compilation failed"
  | .renderFailed => "Render failed"
  | .componentFailed => "Component render failed"
  | .layoutFailed => "Layout render failed"
  | .includeFailed => "Include render failed"
  | .elementNotFound selector => "Element " ++ selector ++ " not found"
  | .clickFailed => "Click handler failed"
  | .hookOutsideInstance => "Lifecycle hook registered outside of a component instance"
  | .serviceMissing => "Injected service is not registered"
  | .componentMissing => "Component not registered"
  | .layoutMissing => "Layout not registered"
  | .viewMissing => "View not registered"
  | .dataNotObject => "Data factory must return an object"
  | .stateNotObject => "Store state must be an object; starting empty"
  | .mutationMissing => "Unknown store mutation"
  | .clickMethodMissing => "Click handler method not found"
  | .modelPathBroken => "Model path does not lead to an object"

end Event

/-- A line of the log: an event, or a text that a program wrote. -/
inductive LogLine where
  | event (e : Event)
  | note (text : String)
deriving DecidableEq

def LogLine.text : LogLine → String
  | .event e => e.level.word ++ " " ++ e.message
  | .note text => text

end LiveMarkup
