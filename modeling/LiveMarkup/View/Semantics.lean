import LiveMarkup.Reactive.Machine
import LiveMarkup.View.Mount
import LiveMarkup.View.Preview

/-!
# What the code of the view layer does

Routines are rendered in the surroundings of their owner, mounted instances are brought up to date,
and the bodies and tasks of the application do what the application says.
-/

namespace LiveMarkup

abbrev Client.World (C : Client) := LiveMarkup.World C.signature
abbrev Client.Op (C : Client) := LiveMarkup.Op C.signature
abbrev Client.Instance (C : Client) := LiveMarkup.Instance C.Body
abbrev Client.Caller (C : Client) := LiveMarkup.Caller C.signature

structure Behaviour (C : Client) where
  invoke : C.Body → Invocation → View C (Except ValueError Value)
  task : C.Task → View C C.Answer

namespace View

variable {C : Client}

def hostOf : Owner → Host C.signature Owner
  | .live data sections => liveHost data sections
  | .preview kit sections => previewHost kit sections

def semantics (b : Behaviour C) : Semantics C.signature
  | .invoke body occasion => b.invoke body occasion
  | .render r scope owner => (r.render (hostOf owner) scope).run
  | .refresh i => refresh i
  | .task t => b.task t

end View

end LiveMarkup
