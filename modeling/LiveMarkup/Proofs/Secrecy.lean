import LiveMarkup.Proofs.Serving
import LiveMarkup.Proofs.Veils

/-!
# Hidden messages stay hidden

While settings keep messages hidden, a failed component, layout or include is shown by a fragment
that does not mention its message, so it looks the same in both runs however the failure was worded.
Hence a veil serves templates: a routine renders to the same text in both runs, or fails in both for
one kind of reason.

`Request.hidden_messages_stay_hidden` says it for everything an application can ask to be rendered:
two families of application code that fail on the same occasions for the same kinds of reasons
give the same pages, however deep calls nest.
-/

namespace LiveMarkup

open View ViewState

variable {V : Veil C}

/-! ## Fragments of instances -/

lemma Fragment.live_iff {f : Fragment Owner} : f.Live ↔ f.OwnedBy Owner.Live := by
  constructor
  · rintro (_ | _ | h)
    · trivial
    · trivial
    · exact h
  · intro h
    cases f with
    | markup html => exact .markup html
    | failure message => exact .failure message
    | body code scope owner => exact .body h

lemma Slots.live_iff : Slots.Live slots ↔ slots.OwnedBy Owner.Live :=
  forall₂_congr fun _ _ => Fragment.live_iff

lemma FunctionCode.live_iff {code : FunctionCode C.Body} : code.Live ↔ code.OwnedBy Owner.Live := by
  cases code with
  | slot slots => exact Slots.live_iff
  | sectionOf f => exact Fragment.live_iff
  | _ => exact Iff.rfl

def Instance.Agree {B : Type} (owners : Owner → Prop) (x x' : Instance B) : Prop :=
  x = x' ∧ Slots.OwnedBy owners x.sections

lemma ViewState.Discreet.note {f : ViewState C → ViewState C}
    (hf : Notes Owner.Live f) {s : ViewState C} (hs : s.Discreet) : (f s).Discreet where
  hidden := by
    rw [(hf.beside s).settings]
    exact hs.hidden
  functions h := (hf.functions s h).elim hs.functions FunctionCode.live_iff.mpr
  instances h := by
    rw [(hf.beside s).instances] at h
    exact hs.instances h

/-! ## What a veil serves with -/

namespace Veil

/-- A program gives the two runs related results. -/
abbrev Gives (V : Veil C) (R : α → α → Prop) (p : View C α) : Prop :=
  V.Covers R p p

/-- Under a veil programs are alike that end in the same way. -/
def likeness (V : Veil C) : Likeness C.signature :=
  .ofSame False ⟨V.Covers, .pure, .bind⟩ fun op hop => by
    cases op with
    | read | peek | newObject | newList | log => exact Covers.perform _ trivial
    | _ => cases hop

lemma outcome_iff : V.likeness.Outcome kind R r r' ↔ FailsAlike kind R r r' := by
  constructor
  · rintro (h | ⟨h, -⟩)
    · exact .ok h
    · exact .error h
  · rintro (h | h)
    · exact .ok h
    · exact .error h False.elim

end Veil

open Veil

namespace View

variable {f : ViewState C → ViewState C}

lemma same_of_states (s s' : ViewState C) (h : V.States s s') : Same Discreet s s' := by
  cases h with
  | intro hs _ => exact ⟨hs, _, rfl⟩

lemma gives_get : V.Gives (Same Discreet) get := (Covers.perform .get trivial).imp same_of_states

section

variable (hf : ∀ s c, f { s with client := c } = { f s with client := c })
  (hkeep : ∀ {s : ViewState C}, s.Discreet → (f s).Discreet)
include hf hkeep

lemma gives_exchange : V.Gives (Same Discreet) (exchange f) :=
  (Covers.perform (.modify f) fun {_ _} h => h.update hf hkeep).imp same_of_states

lemma gives_modify : V.Gives Eq (modify f) := (gives_exchange hf hkeep).bind fun _ _ _ => .pure rfl

end

lemma failureFragment_of_hidden (hs : s.exposeMessages = false) (kind : DiagnosticKind)
    (message message' : String) :
    failureFragment s kind message = failureFragment s kind message' := by
  unfold failureFragment
  rw [hs]
  cases kind <;> rfl

lemma covers_failure (kind : DiagnosticKind) (e e' : RenderError) :
    V.Covers Rendered.SamePage (failure kind e) (failure kind e') := by
  refine gives_get.bind ?_
  rintro s _ ⟨hs, c, rfl⟩
  exact .pure (.diagnostic rfl (failureFragment_of_hidden hs.hidden kind _ _))

lemma serves_veil (V : Veil C) : V.likeness.Serves Owner.Live Discreet where
  same := rfl
  loops := trivial
  plain op hop := by
    cases op with
    | read | write | newObject | newHost | log => exact Covers.perform _ trivial
    | _ => cases hop
  get := gives_get
  exchange hf := gives_exchange hf.client fun hs => hs.note hf
  invoke b occasion _ :=
    (Covers.perform (.call (.invoke b occasion)) trivial).imp fun _ _ => outcome_iff.mpr
  factory b :=
    (Covers.perform (.within none (.invoke b .factory)) trivial).imp fun _ _ => outcome_iff.mpr
  render r scope owner h :=
    (Covers.perform (.call (.render r scope owner)) h).imp fun _ _ => outcome_iff.mpr
  live h := .live (Slots.live_iff.mpr h)
  functions hs h := FunctionCode.live_iff.mp (hs.functions h)
  failure kind e e' _ := covers_failure kind e e'

abbrev veilService (V : Veil C) : Service C :=
  (serves_veil V).service

/-! ## Instances that are kept -/

section

variable (i : InstanceId)
include i

lemma gives_instance? : V.Gives (Option.Rel (Instance.Agree Owner.Live)) (instance? i) := by
  refine gives_get.bind ?_
  rintro s _ ⟨hs, c, rfl⟩
  refine .pure ?_
  cases hi : s.instances[i.index]? with
  | none => exact .none
  | some x => exact .some ⟨rfl, Slots.live_iff.mp (hs.instances hi)⟩

lemma gives_modifyInstance {f : C.Instance → C.Instance}
    (hf : ∀ x, (f x).sections = x.sections) : V.Gives Eq (modifyInstance i f) := by
  refine gives_modify (fun _ _ => rfl) fun {s} hs => ⟨hs.hidden, hs.functions, ?_⟩
  intro j x hx
  rw [Array.getElem?_modify] at hx
  split at hx
  · obtain ⟨y, hy, rfl⟩ := Option.map_eq_some_iff.mp hx
    rw [hf]
    exact hs.instances hy
  · exact hs.instances hx

lemma gives_endMountEffect : V.Gives Eq (endMountEffect i) := by
  refine (gives_instance? i).bind fun x x' hx => ?_
  have heffect : x.bind (·.mountEffect) = x'.bind (·.mountEffect) := by
    cases hx with
    | none => rfl
    | some hx => rw [hx.1]
  rw [heffect]
  split
  · refine Covers.bindEq (gives_modifyInstance i ?_) fun _ => ?_
    · exact fun _ => rfl
    exact Covers.perform (.dispose _) trivial
  · exact .pure rfl

lemma gives_retire : V.Gives Eq (retire i) := by
  refine (gives_instance? i).bind fun x x' hx => ?_
  cases hx with
  | none => exact .pure rfl
  | some hx =>
    rw [← hx.1]
    dsimp only
    split
    · exact .pure rfl
    · exact gives_endMountEffect i

lemma gives_during {p : View C α} (hp : V.Gives R p) : V.Gives R (during i p) := by
  refine Covers.bindEq (gives_modifyInstance i ?_) fun _ => ?_
  · exact fun _ => rfl
  refine hp.bind fun a a' ha => ?_
  refine Covers.bindEq (gives_modifyInstance i ?_) fun _ => ?_
  · exact fun _ => rfl
  exact (gives_retire i).bindEq fun _ => .pure ha

lemma gives_writeTarget (data : ObjectId) (html : String) (t : TargetId) :
    V.Gives Eq (writeTarget i data html t) :=
  gives_modify (fun _ _ => rfl) fun hs => ⟨hs.hidden, hs.functions, hs.instances⟩

/-- An instance rendered at top level looks the same in both runs, and so does its target. -/
lemma gives_renderTop : V.Gives Rendered.SamePage (renderTop i) := by
  have hreset : V.Gives Eq (resetStacks (C := C)) :=
    gives_modify (fun _ _ => rfl) fun hs => ⟨hs.hidden, hs.functions, hs.instances⟩
  refine hreset.bindEq fun _ => ?_
  refine (gives_instance? i).bind fun x x' hx => ?_
  cases hx with
  | none => exact .pure (.markup "")
  | @some x _ hx =>
    rw [← hx.1]
    refine Covers.bind ((serves_veil V).render _ _ ((serves_veil V).live hx.2)) fun r r' hr => ?_
    refine Covers.bind (Service.alike_settle (L := veilService V) .render .renderFailed hr)
      fun page page' hpage => ?_
    refine (gives_instance? i).bind fun now now' hnow => ?_
    -- rendering may have unmounted the instance, and then it has in both runs
    have htarget : now.bind (·.target) = now'.bind (·.target) := by
      cases hnow with
      | none => rfl
      | some hnow => rw [hnow.1]
    rw [htarget, hpage.html]
    split
    · exact (gives_writeTarget i x.data _ _).bindEq fun _ => .pure hpage
    · exact .pure hpage

lemma gives_runHooks (hooks : List C.Body) : V.Gives Eq (runHooks i hooks) := by
  induction hooks with
  | nil => exact .pure rfl
  | cons b rest ih =>
    have hhook : V.Gives (FailsAlike ValueError.kind Eq)
        (Program.untracked (S := C.signature) (.invoke b (.hook i))) :=
      Covers.perform (.within none (.invoke b (.hook i))) trivial
    exact hhook.bind fun _ _ _ => ih

lemma covers_afterRender {r r' : Rendered} (h : r.SamePage r') :
    V.Covers Eq (afterRender i r) (afterRender i r') := by
  cases h with
  | diagnostic => exact .pure rfl
  | markup html =>
    refine (gives_instance? i).bind fun x x' hx => ?_
    cases hx with
    | none => exact .pure rfl
    | some hx =>
      rw [← hx.1]
      dsimp only
      split
      · exact .pure rfl
      · refine Covers.bindEq (gives_modifyInstance i ?_) fun _ => ?_
        · exact fun _ => rfl
        refine gives_get.bind ?_
        rintro s _ ⟨-, c, rfl⟩
        exact gives_runHooks i _

lemma gives_refresh : V.Gives Eq (refresh i) := by
  refine (gives_instance? i).bind fun x x' hx => ?_
  cases hx with
  | none => exact .pure rfl
  | some hx =>
    rw [← hx.1]
    dsimp only
    split
    · refine gives_during i ?_
      exact (gives_renderTop i).bind fun r r' hr => covers_afterRender i hr
    · exact .pure rfl

end

end View

/-! ## Two families of application code -/

/-- Application code that, run by run, gives the same values and fails for the same kinds of
reasons. The wording of a failure may differ. -/
structure Behaviour.Rewords (V : Veil C) (b b' : Behaviour C) : Prop where
  invoke : ∀ body occasion,
    V.Covers (FailsAlike ValueError.kind Eq) (b.invoke body occasion) (b'.invoke body occasion)
  task : ∀ t, V.Covers V.answer (b.task t) (b'.task t)

namespace Behaviour.Rewords

lemma covers_semantics (hb : b.Rewords V b') (hc : c.Live) :
    V.Covers (V.Replies c) (semantics b c) (semantics b' c) := by
  cases c with
  | invoke body occasion => exact hb.invoke body occasion
  | task t => exact hb.task t
  | refresh i => exact gives_refresh i
  | render r scope owner =>
    -- a preview would show messages; an instance hides them
    have howner : owner.Live := hc
    cases howner with
    | @live data _ hsections =>
      have hdata : (veilService V).rel (.object data) (.object data) := ⟨trivial, rfl⟩
      have hhost := Service.liveHost_alike hdata
        (Slots.same_iff.mpr ⟨rfl, Slots.live_iff.mp hsections⟩)
      have hrun := r.alike_render (L := V.likeness) (fun _ => trivial) hhost
        ((serves_veil V).scope_refl scope)
      exact Covers.imp hrun fun _ _ => outcome_iff.mp

lemma callers (hb : b.Rewords V b') (bound : Nat) :
    V.Callers ((semantics b).caller bound) ((semantics b').caller bound) := by
  induction bound with
  | zero =>
    intro c _ w w' _
    exact .none
  | succ n ih =>
    intro c hc w w' hw
    exact hb.covers_semantics hc ih hw

end Behaviour.Rewords

/-- Application code that answers every call at once. -/
def Behaviour.answering (answer : C.Body → Invocation → Except ValueError Value)
    (solve : C.Task → C.Answer) : Behaviour C where
  invoke body occasion := return answer body occasion
  task t := return solve t

lemma Behaviour.rewords_answering {answer answer' : C.Body → Invocation → Except ValueError Value}
    (h : ∀ body occasion, FailsAlike ValueError.kind Eq (answer body occasion) (answer' body
      occasion)) (hsolve : ∀ t, V.answer (solve t) (solve' t)) :
    (answering answer solve).Rewords V (answering answer' solve') where
  invoke body occasion := .pure (h body occasion)
  task t := .pure (hsolve t)

/-! ## What can be asked for -/

/-- Something that an application asks to be rendered. -/
inductive Request (C : Client) where
  /-- An instance that is kept. -/
  | kept (i : InstanceId)
  | dynamic (d : Definition C.Body) (attrs : Table Value) (slots : Slots Owner)
  | layout (name : String) (sections : Slots Owner)
  | inclusion (data : ObjectId) (name : String) (passed : Option Value)

namespace Request

def program : Request C → View C Rendered
  | .kept i => during i (renderTop i)
  | .dynamic d attrs slots => renderDynamic d attrs slots
  | .layout name sections => renderLayout name sections
  | .inclusion data name passed => renderInclude data name passed

def Live : Request C → Prop
  | .dynamic _ _ slots => Slots.Live slots
  | .layout _ sections => Slots.Live sections
  | _ => True

lemma gives_program {q : Request C} (hq : q.Live) : V.Gives Rendered.SamePage q.program := by
  cases q with
  | kept i => exact gives_during i (gives_renderTop i)
  | dynamic d attrs slots =>
    exact Service.alike_renderDynamic (L := veilService V) trivial (.refl_same attrs)
      (Slots.same_iff.mpr ⟨rfl, Slots.live_iff.mp hq⟩)
  | layout name sections =>
    exact Service.alike_renderLayout (L := veilService V) name
      (Slots.same_iff.mpr ⟨rfl, Slots.live_iff.mp hq⟩)
  | inclusion data name passed =>
    refine Service.alike_renderInclude (L := veilService V) ⟨trivial, rfl⟩ name ?_
    cases passed with
    | none => exact .none
    | some v => exact .some ((serves_veil V).value_iff.mpr rfl)

/-- **Hidden messages stay hidden.** While settings keep messages hidden, everything that can be
asked for renders to the same page under two families of application code that differ in the wording
of their failures only: with every bound on nesting, both runs end or neither does, and where they
end the page is the same, and the worlds still differ in nothing else. -/
theorem hidden_messages_stay_hidden {b b' : Behaviour C} (hb : b.Rewords V b') {q : Request C}
    (hq : q.Live) {w w' : C.World} (hw : V.Worlds w w') (bound : Nat) :
    Option.Rel (fun r r' => r.1.html = r'.1.html ∧ V.Worlds r.2 r'.2)
      (q.program.exec (View.semantics b) bound w)
      (q.program.exec (View.semantics b') bound w') := by
  have hpage : V.Gives (fun r r' => r.html = r'.html) q.program :=
    (gives_program hq).imp fun _ _ h => h.html
  exact hpage (hb.callers bound) hw

end Request

/-! ## A price that cannot be told

A page hands a section to a layout, the section a slot to a component, and the slot calls a method
that fails. The component shows the slot through `$slot`, so the message passes through a
diagnostic, a failure of `$slot` and the failure of the component before something is shown for
it. -/

namespace Outage

/-- An application whose code gives a fixed text, or fails. -/
abbrev client : Client where
  Body := Option String
  Task := Empty
  Answer := Unit
  State := Unit

def saying (message : String) : Behaviour client :=
  .answering
    (fun body _ =>
      match body with
      | some text => .ok (.text text)
      | none => .error (.custom message))
    Empty.elim

def veil : Veil client where
  state := Eq
  answer := Eq

lemma rewords_saying (message message' : String) :
    (saying message).Rewords veil (saying message') := by
  refine Behaviour.rewords_answering (fun body occasion => ?_) (fun t => t.elim)
  cases body with
  | some text => exact .ok rfl
  | none => exact .error rfl

/-- Calls a function without arguments and shows what it gives. -/
def echoOf (name : String) : Instruction :=
  .echo (.call (.name name) [])

def shell : Definition client.Body where
  name := "shell"
  source := .routine ⟨[.text "<main>", .yieldSection "content" none, .text "</main>"]⟩

def card : Definition client.Body where
  name := "card"
  source := .routine ⟨[.text "<p>", echoOf "$slot", .text "</p>"]⟩

def page : Definition client.Body where
  name := "page"
  source := .routine ⟨[.extendLayout "shell"
    [("content", [echoOf "greeting", .component "card" [] [("default", [echoOf "price"])]])]]⟩
  methods := ⟨[("greeting", some "Hello. "), ("price", none)]⟩

def world (exposeMessages : Bool) : World client.signature where
  state :=
    { catalog := { components := ⟨[("card", card)]⟩, layouts := ⟨[("shell", shell)]⟩ }
      settings := { exposeMessages }
      client := () }

def shown (exposeMessages : Bool) (message : String) : Option String :=
  ((Request.dynamic page .empty .empty).program.exec (semantics (saying message)) 8
    (world exposeMessages)).map fun r => r.1.html

lemma worlds_world : veil.Worlds (world false) (world false) where
  heap := rfl
  registry := rfl
  effects := rfl
  active := rfl
  maxDepth := rfl
  state := by
    refine .intro ⟨rfl, ?_, ?_⟩ rfl
    · intro i code hi
      cases hi
    · intro i x hi
      cases hi
  bodies := by
    intro e c he
    cases he

end Outage

/-- Two wordings of one failure deep inside a page, and the page is the same. With messages exposed
it would show the wording. -/
theorem Request.hidden_messages_stay_hidden_outage :
    (Outage.saying "no row 17").Rewords Outage.veil (Outage.saying "timeout") ∧
    (Request.dynamic Outage.page .empty .empty).Live ∧
    Outage.veil.Worlds (Outage.world false) (Outage.world false) ∧
    Option.Rel (fun r r' => r.1.html = r'.1.html ∧ Outage.veil.Worlds r.2 r'.2)
      ((Request.dynamic Outage.page .empty .empty).program.exec
        (View.semantics (Outage.saying "no row 17")) 8 (Outage.world false))
      ((Request.dynamic Outage.page .empty .empty).program.exec
        (View.semantics (Outage.saying "timeout")) 8 (Outage.world false)) ∧
    Outage.shown false "no row 17" = some "<main>Hello. Error</main>" ∧
    Outage.shown true "no row 17" = some "<main>Hello. Error: no row 17</main>" := by
  have hrewords := Outage.rewords_saying "no row 17" "timeout"
  have hlive : (Request.dynamic Outage.page .empty .empty).Live := Slots.live_empty
  refine ⟨hrewords, hlive, Outage.worlds_world, ?_, by decide +kernel, by decide +kernel⟩
  exact hidden_messages_stay_hidden hrewords hlive Outage.worlds_world 8

end LiveMarkup
