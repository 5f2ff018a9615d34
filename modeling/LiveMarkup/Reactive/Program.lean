import LiveMarkup.Heap.Query
import LiveMarkup.Heap.Update
import LiveMarkup.Reactive.Event
import LiveMarkup.Reactive.Registry

/-!
# Programs over reactive containers

A program asks for one operation after the other and goes on with the reply. The operations are
exactly what code may do to the world: read and change containers, create, run and dispose
effects, and call other code. Code itself is data, of a type that the application chooses
(`Signature.Code`), so that effects, methods and functions can be kept in the world and looked at
from outside.

Every program is a well-founded tree, so along any run it performs finitely many operations. What
need not end is a chain of calls: that is the machine's business, not the program's.
-/

namespace LiveMarkup

/-- What an application brings along: its code, what running each piece of code results in, and
the state it keeps besides containers and effects. -/
structure Signature where
  Code : Type
  Reply : Code → Type
  State : Type

inductive Op (S : Signature) where
  /-- Asks a question; the running effect depends on what the answer looked at. -/
  | read (q : Query)
  | peek (q : Query)
  /-- Changes a container and runs the effects that depend on what changed. -/
  | write (u : Update)
  | newObject (fields : Table Value)
  | newList (items : List Value)
  | newHost (h : HostObject)
  | call (c : S.Code)
  /-- Runs code with another effect, or none, as the running one. -/
  | within (e : Option EffectId) (c : S.Code)
  | spawn (c : S.Code)
  | rerun (e : EffectId)
  | dispose (e : EffectId)
  | isDisposed (e : EffectId)
  | active
  | track (s : Slot)
  | trigger (s : Slot)
  | subscriberCount (s : Slot)
  | hasTarget (c : Container)
  | dependencyCount (e : EffectId)
  | clearDependencies (e : EffectId)
  | maxDepth
  /-- Sets how often an effect may run inside itself; at least once. -/
  | setMaxDepth (n : Nat)
  | log (lines : List LogLine)
  | get
  /-- Changes the application's state and gives what it was. -/
  | modify (f : S.State → S.State)

abbrev Op.Reply {S : Signature} : Op S → Type
  | .read q => q.Answer
  | .peek q => q.Answer
  | .write u => u.Result
  | .newObject _ => ObjectId
  | .newList _ => ListId
  | .newHost _ => HostId
  | .call c => S.Reply c
  | .within _ c => S.Reply c
  | .spawn _ => EffectId
  | .rerun _ => Unit
  | .dispose _ => Unit
  | .isDisposed _ => Bool
  | .active => Option EffectId
  | .track _ => Unit
  | .trigger _ => Unit
  | .subscriberCount _ => Nat
  | .hasTarget _ => Bool
  | .dependencyCount _ => Nat
  | .clearDependencies _ => Unit
  | .maxDepth => Nat
  | .setMaxDepth _ => Unit
  | .log _ => Unit
  | .get => S.State
  | .modify _ => S.State

inductive Program (S : Signature) (α : Type) where
  | done (a : α)
  | step (op : Op S) (next : op.Reply → Program S α)

namespace Program

variable {S : Signature} {α β : Type}

def bind (p : Program S α) (f : α → Program S β) : Program S β :=
  match p with
  | .done a => f a
  | .step op next => .step op fun r => (next r).bind f

instance : Monad (Program S) where
  pure := done
  bind := bind

def perform (op : Op S) : Program S op.Reply :=
  .step op .done

@[simp]
theorem pure_eq_done (a : α) : (pure a : Program S α) = done a := rfl

@[simp]
theorem bind_done (a : α) (f : α → Program S β) : (done a : Program S α) >>= f = f a := rfl

@[simp]
theorem bind_step (op : Op S) (next : op.Reply → Program S α) (f : α → Program S β) :
    (step op next : Program S α) >>= f = step op fun r => next r >>= f := rfl

theorem id_map (p : Program S α) : id <$> p = p := by
  induction p with
  | done a => rfl
  | step op next ih => exact congrArg (step op) (funext ih)

theorem bind_assoc {γ : Type} (p : Program S α) (f : α → Program S β) (g : β → Program S γ) :
    p >>= f >>= g = p >>= fun a => f a >>= g := by
  induction p with
  | done a => rfl
  | step op next ih => exact congrArg (step op) (funext ih)

instance : LawfulMonad (Program S) :=
  LawfulMonad.mk' (Program S) id_map (fun _ _ => rfl) bind_assoc

def read (q : Query) : Program S q.Answer :=
  perform (.read q)

def peek (q : Query) : Program S q.Answer :=
  perform (.peek q)

def write (u : Update) : Program S u.Result :=
  perform (.write u)

def newObject (fields : Table Value) : Program S ObjectId :=
  perform (.newObject fields)

def newList (items : List Value) : Program S ListId :=
  perform (.newList items)

def newHost (h : HostObject) : Program S HostId :=
  perform (.newHost h)

def call (c : S.Code) : Program S (S.Reply c) :=
  perform (.call c)

/-- Runs code without a running effect, so that it depends on nothing. -/
def untracked (c : S.Code) : Program S (S.Reply c) :=
  perform (.within none c)

def report (e : Event) : Program S Unit :=
  perform (.log [.event e])

def state : Program S S.State :=
  perform .get

def exchangeState (f : S.State → S.State) : Program S S.State :=
  perform (.modify f)

end Program

end LiveMarkup
