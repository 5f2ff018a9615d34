import LiveMarkup.Toml.Document

/-!
# Settings

How deep effects may nest, and how failures are shown. Settings are read from a document whose
tables `reactive` and `diagnostics` hold them; what is missing keeps its default and what is unknown
is ignored.
-/

namespace LiveMarkup

structure Settings where
  maxEffectDepth : Nat := 32
  exposeMessages : Bool := true
  renderErrorStyle : String := "color:red"
deriving DecidableEq, Inhabited

inductive SettingsError where
  /-- The document cannot be read, or a value has the wrong type. -/
  | unreadable
  /-- Effects must be allowed to run at least once. -/
  | depthTooSmall
deriving DecidableEq

def SettingsError.message : SettingsError → String
  | .unreadable => "TOML parse error"
  | .depthTooSmall => "reactive.max_effect_depth must be at least 1"

namespace Settings

/-- Looks up a setting in a group: by name in a table, by position in an array. -/
def setting? (group : Option Toml) (name : String) (position : Nat) :
    Except SettingsError (Option Toml) :=
  match group with
  | none => return none
  | some (.table entries) => return entries.lookup name
  | some (.array items) => return items[position]?
  | some _ => throw .unreadable

def depth (fallback : Nat) : Option Toml → Except SettingsError Nat
  | none => return fallback
  | some (.integer n) => if 0 ≤ n && n < Int.pow 2 64 then return n.toNat else throw .unreadable
  | some _ => throw .unreadable

def switch (fallback : Bool) : Option Toml → Except SettingsError Bool
  | none => return fallback
  | some (.bool b) => return b
  | some _ => throw .unreadable

def text (fallback : String) : Option Toml → Except SettingsError String
  | none => return fallback
  | some (.text s) => return s
  | some _ => throw .unreadable

def parse (source : String) : Except SettingsError Settings := do
  match Toml.parse? source with
  | none => throw .unreadable
  | some entries =>
    let base : Settings := {}
    let reactive := entries.lookup "reactive"
    let diagnostics := entries.lookup "diagnostics"
    let maxEffectDepth ← depth base.maxEffectDepth (← setting? reactive "max_effect_depth" 0)
    let exposeMessages ←
      switch base.exposeMessages (← setting? diagnostics "expose_messages" 0)
    let renderErrorStyle ←
      text base.renderErrorStyle (← setting? diagnostics "render_error_style" 1)
    if maxEffectDepth == 0 then throw .depthTooSmall
    return { maxEffectDepth, exposeMessages, renderErrorStyle }

end Settings

end LiveMarkup
