import LiveMarkup.Routine.Basic
import LiveMarkup.Table

/-!
# Component definitions

A definition says how instances are made: where their data comes from, which methods, props and
lifecycle hooks they have, and what they render. `B` is the type of application code.

A template is compiled when it is first needed. Every time a definition is given a template it
gets a new cell for the compiled routine; copies of the definition share the cell, so each template
given is compiled at most once.
-/

namespace LiveMarkup

structure CellId where
  index : Nat
deriving DecidableEq, Inhabited

inductive Source where
  /-- A template, compiled into a cell when it is needed. -/
  | template (text : String) (cell : CellId)
  | routine (r : Routine)

structure Definition (B : Type) where
  name : String
  source : Source
  factory : Option B := none
  methods : Table B := .empty
  props : List String := []
  mounted : List B := []
  unmounted : List B := []

namespace Definition

variable {B : Type}

def isProp (d : Definition B) (name : String) : Bool :=
  d.props.any (· == name)

def withRoutine (d : Definition B) (r : Routine) : Definition B :=
  { d with source := .routine r }

def withFactory (d : Definition B) (b : B) : Definition B :=
  { d with factory := some b }

def withMethod (d : Definition B) (name : String) (b : B) : Definition B :=
  { d with methods := d.methods.insert name b }

def withProps (d : Definition B) (names : List String) : Definition B :=
  { d with props := d.props ++ names }

def onMounted (d : Definition B) (b : B) : Definition B :=
  { d with mounted := d.mounted ++ [b] }

def onUnmounted (d : Definition B) (b : B) : Definition B :=
  { d with unmounted := d.unmounted ++ [b] }

end Definition

end LiveMarkup
