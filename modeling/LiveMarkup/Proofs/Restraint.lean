import LiveMarkup.Proofs.Serving

/-!
# The surroundings of templates are modest

Functions, host objects, components, layouts, includes and fragments, in an instance and in a
preview: whatever a template reaches asks for no more than rendering does. So rendering a routine is
modest, whoever owns it.
-/

namespace LiveMarkup

variable {C : Client} {α : Type}

lemma Fragment.ownedBy_all (f : Fragment Owner) : f.OwnedBy fun _ => True := by
  cases f <;> trivial

lemma Slots.ownedBy_all (slots : Slots Owner) : slots.OwnedBy fun _ => True :=
  fun e _ => e.2.ownedBy_all

namespace View

/-- Programs are alike that ask for the same, and for no more than rendering does. -/
abbrev modesty : Likeness C.signature :=
  .only fun _ => Op.AsksOrMakes.isModest

lemma outcome_refl (r : Except ε α) : (modesty (C := C)).Outcome kind Eq r r := by
  cases r with
  | ok a => exact .ok rfl
  | error e => exact .error rfl fun _ => rfl

lemma modest_get : Modest (C := C) get := .perform trivial

lemma modest_render (r : Routine) (scope : Scope) (owner : Owner) :
    Modest (C := C) (render r scope owner) :=
  .perform trivial

lemma serves_modesty : (modesty (C := C)).Serves (fun _ => True) fun _ => True where
  same := rfl
  loops := trivial
  plain op hop := by
    refine Program.Only.asks (.perform ?_) fun _ => rfl
    cases op <;> trivial
  get := .step trivial fun s => .done ⟨trivial, s.client, rfl⟩
  exchange hf := .step ⟨hf.beside, hf.minds⟩ fun s => .done ⟨trivial, s.client, rfl⟩
  invoke b occasion h := by
    refine Program.Only.asks (.perform ?_) outcome_refl
    cases occasion with
    | hook i => exact absurd rfl (h i)
    | _ => trivial
  factory b := Program.Only.asks (.perform trivial) outcome_refl
  render r scope owner _ := (modest_render r scope owner).asks outcome_refl
  live _ := trivial
  functions {s i code} _ _ := by
    cases code with
    | slot slots => exact slots.ownedBy_all
    | sectionOf f => exact f.ownedBy_all
    | _ => trivial
  failure kind e e' h := by
    obtain rfl := h trivial
    exact (modest_get.bind fun _ => .done _).asks .refl

/-- What templates are served with, like itself in whatever it asks for. -/
abbrev modestService (C : Client) : Service C :=
  serves_modesty.service

lemma slots_same (slots : Slots Owner) : slots.Rel (modestService C).fragment slots :=
  Slots.same_iff.mpr ⟨rfl, slots.ownedBy_all⟩

lemma modest_resetStacks : Modest (C := C) resetStacks :=
  .step ⟨fun _ => ⟨rfl, rfl, rfl, rfl, rfl, rfl, rfl⟩, .empties⟩ fun _ => .done _

lemma modest_construct (d : Definition C.Body) (o : InstanceOptions) : Modest (construct d o) := by
  have ho : o.Alike (modestService C) o :=
    { props := .refl_same _
      attributes := .refl_same _
      slots := slots_same _
      sections := slots_same _
      data := by
        cases o.data with
        | none => exact .none
        | some x => exact .some ⟨trivial, rfl⟩
      given := fun h => absurd trivial h }
  exact (Service.alike_construct trivial ho).only

lemma modest_renderInstance (x : C.Instance) : Modest (renderInstance x) := modest_render _ _ _

lemma modest_settle (kind : DiagnosticKind) (event : Event) (r : Except RenderError String) :
    Modest (C := C) (settle kind event r) :=
  (Service.alike_settle (L := modestService C) kind event (outcome_refl r)).only

lemma modest_routine (b : Behaviour C) (r : Routine) (scope : Scope) (owner : Owner) :
    Modest (semantics b (.render r scope owner)) := by
  have hhost : (hostOf owner).Alike modesty (modestService C).fragment (hostOf (C := C) owner) := by
    cases owner with
    | live data sections =>
      exact Service.liveHost_alike (L := modestService C) ⟨trivial, rfl⟩ (slots_same sections)
    | preview kit sections =>
      refine Service.previewHost_alike (L := modestService C) trivial ?_ (slots_same sections)
      refine ⟨rfl, fun _ _ _ => trivial, .refl_same _, .refl_same _, rfl, ?_⟩
      intro sections sections' h
      exact ⟨by rw [(Slots.same_iff.mp h).1], trivial⟩
  exact (r.alike_render (fun _ => trivial) hhost (serves_modesty.scope_refl scope)).only

end View

end LiveMarkup
