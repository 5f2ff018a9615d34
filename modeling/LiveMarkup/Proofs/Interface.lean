import LiveMarkup.Proofs.Housekeeping

/-!
# Applications that keep to the interface

`View.Uses` leaves instances and targets to the view layer, which is enough for what becomes of
targets. Hooks and stacks are kept in order by the view layer as well, and for results about them an
application has to leave them to it: it runs no hooks and refreshes no instances by itself, and it
changes stacks by adding to one or emptying them all. Such programs are `View.Abides`.
-/

namespace LiveMarkup

variable {C : Client}

/-- Code that an application may run. Hooks are run, and mounted instances are refreshed, by the
view layer alone. -/
def Code.IsFree : Code C → Prop
  | .invoke _ (.hook _) | .refresh _ => False
  | _ => True

def Op.IsFree : C.Op → Prop
  | .call c | .within _ c | .spawn c => Code.IsFree c
  | .modify f =>
    (∀ s, (f s).instances = s.instances ∧ (f s).targets = s.targets) ∧ View.MindsStacks f
  | _ => True

namespace Op

lemma IsFree.isOrdinary {op : C.Op} (h : op.IsFree) : op.IsOrdinary := by
  cases op with
  | spawn c =>
    cases c with
    | refresh i => exact h
    | _ => trivial
  | modify f => exact h.1
  | _ => trivial

lemma IsModest.isFree {op : C.Op} (h : op.IsModest) : op.IsFree := by
  cases op with
  | call c =>
    cases c with
    | invoke b occasion => cases occasion <;> exact h
    | refresh i => exact h
    | _ => trivial
  | within e c =>
    cases e with
    | none =>
      cases c with
      | invoke b occasion => cases occasion <;> exact h
      | _ => exact h.elim
    | some e => exact h.elim
  | spawn c => exact h.elim
  | modify f => exact ⟨fun s => ⟨(h.1 s).instances, (h.1 s).targets⟩, h.2⟩
  | _ => trivial

end Op

/-- A program that keeps to the interface of the view layer, and leaves hooks and stacks to it. -/
abbrev View.Abides (p : View C α) : Prop :=
  p.KeepsTo Op.IsFree

@[inherit_doc View.Abides]
abbrev Behaviour.Abides (b : Behaviour C) : Prop :=
  b.KeepsTo Op.IsFree

lemma View.KeepsTo.uses {p : View C α} (h : p.Abides) : p.Uses := by
  induction h with
  | done a => exact .done a
  | step hop _ ih => exact .step hop.isOrdinary ih
  | create d o _ ih => exact .create d o ih
  | newTarget selector _ ih => exact .newTarget selector ih
  | mountTarget i t _ ih => exact .mountTarget i t ih
  | unmount i _ ih => exact .unmount i ih
  | renderTop i _ ih => exact .renderTop i ih
  | release i _ ih => exact .release i ih
  | during i _ _ ihp ih => exact .during i ihp ih

lemma Behaviour.KeepsTo.uses {b : Behaviour C} (h : b.Abides) : b.Uses :=
  ⟨fun body occasion => (h.invoke body occasion).uses, fun t => (h.task t).uses⟩

end LiveMarkup
