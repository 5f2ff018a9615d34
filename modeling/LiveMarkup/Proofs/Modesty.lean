import LiveMarkup.Proofs.Routines

/-!
# Rendering is modest

Rendering asks for little. It reads and makes containers, writes props and data, reports, calls
routines and the bodies of the application, and keeps its notes in the state of the view layer. It
never creates, runs or ends an effect, and it leaves the instances that are kept, the targets, the
catalog, the settings and what the application keeps for itself alone.

Asking for the same, and for nothing else, makes a likeness. So the evaluator and the interpreter of
routines, which are like themselves, are as modest as their surroundings.
-/

namespace LiveMarkup

section Only

namespace Program.Only

variable {p : Program S α} {f : α → Program S β}

lemma done (a : α) : (Program.done a : Program S α).Only P := trivial

lemma step {next : op.Reply → Program S α} (hop : P op) (hnext : ∀ r, (next r).Only P) :
    (Program.step op next).Only P :=
  ⟨hop, hnext⟩

lemma bind (hp : p.Only P) (hf : ∀ a, (f a).Only P) : (p >>= f).Only P := by
  induction p with
  | done a => exact hf a
  | step op next ih => exact .step hp.1 fun r => ih r (hp.2 r)

lemma perform (hop : P op) : (Program.perform op).Only P := .step hop .done

lemma imp (hPQ : ∀ op, P op → Q op) (hp : p.Only P) : p.Only Q := by
  induction p with
  | done a => exact .done a
  | step op next ih => exact .step (hPQ op hp.1) fun r => ih r (hp.2 r)

end Program.Only

/-- Programs that ask for the same operations, all of one kind. -/
inductive Program.Asks (P : Op S → Prop) {α α' : Type} (R : α → α' → Prop) :
    Program S α → Program S α' → Prop
  | done (h : R a a') : Asks P R (.done a) (.done a')
  | step (hop : P op) (h : ∀ r, Asks P R (next r) (next' r)) :
      Asks P R (.step op next) (.step op next')

lemma Program.Asks.bind (hp : Asks P R p p') (hf : ∀ a a', R a a' → Asks P Q (f a) (f' a')) :
    Asks P Q (p >>= f) (p' >>= f') := by
  induction hp with
  | done h => exact hf _ _ h
  | step hop _ ih => exact .step hop ih

lemma Program.Asks.only (h : Asks P R p p') : p.Only P := by
  induction h with
  | done _ => exact .done _
  | step hop _ ih => exact .step hop ih

lemma Program.Only.asks (h : p.Only P) (hR : ∀ a, R a a) : Asks P R p p := by
  induction p with
  | done a => exact .done (hR a)
  | step op next ih => exact .step h.1 fun r => ih r (h.2 r)

/-- Programs are alike that ask for the same, if questions and new containers are of the kind that
may be asked for. -/
def Likeness.only {P : Op S → Prop} (hP : ∀ op, op.AsksOrMakes → P op) : Likeness S :=
  .ofSame True ⟨Program.Asks P, .done, .bind⟩ fun op hop => .step (hP op hop) fun _ => .done rfl

end Only

variable {C : Client}

/-- What is kept, registered and set, and what the application keeps for itself, is the same. -/
structure ViewState.Beside (s s' : ViewState C) : Prop where
  instances : s'.instances = s.instances
  targets : s'.targets = s.targets
  document : s'.document = s.document
  catalog : s'.catalog = s.catalog
  stores : s'.stores = s.stores
  settings : s'.settings = s.settings
  client : s'.client = s.client

/-- What adding to a stack does to the state. -/
def View.pushing (name content : String) (s : ViewState C) : ViewState C :=
  { s with pushed := s.pushed.insert name ((s.pushed.get? name).getD "" ++ content) }

/-- What emptying all stacks does to the state. -/
def View.emptied (s : ViewState C) : ViewState C :=
  { s with pushed := .empty }

/-- Changes of the state that leave stacks alone, add to one of them, or empty them all. -/
inductive View.MindsStacks : (ViewState C → ViewState C) → Prop
  | keeps {f : ViewState C → ViewState C} (h : ∀ s, (f s).pushed = s.pushed) : MindsStacks f
  | pushes (name content : String) : MindsStacks (pushing name content)
  | empties : MindsStacks emptied

/-- The operations that rendering asks for. It runs no hooks: those are run where instances are
mounted and unmounted. -/
def Op.IsModest : C.Op → Prop
  | .read _ | .peek _ | .write _ | .newObject _ | .newList _ | .newHost _ | .log _ | .get => True
  | .call (.invoke _ (.hook _)) | .within none (.invoke _ (.hook _)) => False
  | .call (.invoke _ _) | .call (.render _ _ _) | .within none (.invoke _ _) => True
  | .modify f => (∀ s, ViewState.Beside s (f s)) ∧ View.MindsStacks f
  | _ => False

abbrev View.Modest (p : View C α) : Prop :=
  Program.Only Op.IsModest p

/-! ## Surroundings -/

lemma Op.AsksOrMakes.isModest {op : C.Op} (h : op.AsksOrMakes) : op.IsModest := by
  cases op <;> trivial

end LiveMarkup
