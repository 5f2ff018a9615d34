import LiveMarkup.Value
import LiveMarkup.View.Binding
import LiveMarkup.View.Settings

/-!
# Failures of the view layer

What can go wrong when an application uses instances, targets and stores.
-/

namespace LiveMarkup

inductive ViewError where
  | targetNotFound (selector : String)
  | methodNotFound (name : String)
  | mutationNotFound (name : String)
  | bindingNotFound (kind : BindingKind) (ordinal : Nat)
  | value (e : ValueError)
  | settings (e : SettingsError)
deriving DecidableEq

def ViewError.message : ViewError → String
  | .targetNotFound selector => "Element " ++ selector ++ " not found"
  | .methodNotFound name => "Method " ++ name ++ " is not defined"
  | .mutationNotFound name => "Mutation " ++ name ++ " is not defined"
  | .bindingNotFound kind ordinal =>
    "No " ++ kind.word ++ " binding at position " ++ toString ordinal
  | .value e => e.message
  | .settings e => "Invalid view settings: " ++ e.message

end LiveMarkup
