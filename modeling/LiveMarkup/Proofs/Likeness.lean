import LiveMarkup.Failure
import LiveMarkup.Proofs.Honesty
import LiveMarkup.View.Semantics

/-!
# Programs that are alike

The evaluator and the interpreter of routines ask questions, make containers, call upon their
surroundings, and pass failures on. Where they decide by a failure (`typeof`, `isset` and `empty`)
they decide by its kind. So two of their runs are alike, in whatever sense of the word, as long as
questions about the same things are answered alike, containers made of the same things are alike,
and programs stay alike when alike ones go on where they end. Such a sense is a `Likeness`.

Where names do not matter, `Likeness.ofSame` asks no more than that questions and new containers
are like themselves.
-/

namespace LiveMarkup

open List Program Set

/-- Programs with related results that stay alike when alike ones go on where they end. -/
structure Congruence (S : Signature) where
  Alike : {α α' : Type} → (α → α' → Prop) → Program S α → Program S α' → Prop
  pure : ∀ {α α' : Type} {R : α → α' → Prop} {a : α} {a' : α'}, R a a' →
    Alike R (Pure.pure a) (Pure.pure a')
  bind : ∀ {α α' γ γ' : Type} {R : α → α' → Prop} {Q : γ → γ' → Prop} {p : Program S α}
    {p' : Program S α'} {f : α → Program S γ} {f' : α' → Program S γ'}, Alike R p p' →
    (∀ a a', R a a' → Alike Q (f a) (f' a')) → Alike Q (p >>= f) (p' >>= f')

/-- A sense in which programs can be alike. -/
structure Likeness (S : Signature) extends Naming, Congruence S where
  own : Set Ref
  /-- Failures have to be equal; otherwise one kind is enough. -/
  strict : Prop
  /-- Templates may give the name `loop` to something of their own. -/
  loops : Prop
  own_of_loops : loops → ∀ a, a ∈ own
  read : ∀ {q q' : Query}, q.Rel toNaming q' →
    Alike (q.AnswerRel toNaming q') (read q) (read q')
  /-- Looking at what the program has made itself needs no dependency. -/
  peek : ∀ {o o' : ObjectId}, rel (.object o) (.object o') → .object o ∈ own → ∀ name,
    Alike (Option.Rel (Value.Rel toNaming)) (peek (.property o name))
      (peek (.property o' name))
  newObject : ∀ {fields fields' : Table Value}, fields.Rel (Value.Rel toNaming) fields' →
    Alike (fun o o' => rel (.object o) (.object o') ∧ .object o ∈ own) (newObject fields)
      (newObject fields')
  newList : ∀ {items items' : List Value}, Forall₂ (Value.Rel toNaming) items items' →
    Alike (fun l l' => rel (.list l) (.list l')) (Program.newList items) (Program.newList items')
  report : ∀ e : Event, Alike (fun _ _ => True) (Program.report e) (Program.report e)

namespace Likeness

abbrev value (L : Likeness S) : Value → Value → Prop :=
  Value.Rel L.toNaming

/-- What does or does not give the name `loop` to something of its own may be compared. -/
def Free (L : Likeness S) (binds : Bool) : Prop :=
  binds = true → L.loops

lemma Free.of_or {L : Likeness S} (h : L.Free (b || c)) : L.Free b ∧ L.Free c :=
  ⟨fun hb => h (by simp [hb]), fun hc => h (by simp [hc])⟩

/-- Outcomes that are alike. -/
inductive Outcome (L : Likeness S) {ε α α' : Type} (kind : ε → String) (R : α → α' → Prop) :
    Except ε α → Except ε α' → Prop
  | ok {a : α} {a' : α'} (h : R a a') : Outcome L kind R (.ok a) (.ok a')
  | error {e e' : ε} (hkind : kind e = kind e') (h : L.strict → e = e') :
      Outcome L kind R (.error e) (.error e')

/-- Programs that are alike and fail alike. -/
def AlikeExcept (L : Likeness S) {ε α α' : Type} (kind : ε → String) (R : α → α' → Prop)
    (x : ExceptT ε (Program S) α) (x' : ExceptT ε (Program S) α') : Prop :=
  L.Alike (L.Outcome kind R) x.run x'.run

abbrev Evals (L : Likeness S) {α α' : Type} (R : α → α' → Prop) (x : Eval S α) (x' : Eval S α') :
    Prop :=
  L.AlikeExcept EvalError.kind R x x'

abbrev Renders (L : Likeness S) {α α' : Type} (R : α → α' → Prop) (x : Rendering S α)
    (x' : Rendering S α') : Prop :=
  L.AlikeExcept RenderError.kind R x x'

abbrev Applies (L : Likeness S) (p p' : Program S (Except ValueError Value)) : Prop :=
  L.Alike (L.Outcome ValueError.kind L.value) p p'

variable {L : Likeness S}

lemma imp (hp : L.Alike R p p') (h : ∀ a a', R a a' → R' a a') : L.Alike R' p p' := by
  have hr : L.Alike R' (p >>= Pure.pure) (p' >>= Pure.pure) :=
    L.bind hp fun a a' ha => L.pure (h a a' ha)
  rwa [bind_pure, bind_pure] at hr

namespace AlikeExcept

variable {kind : ε → String}

lemma pure (h : R a a') : L.AlikeExcept kind R (Pure.pure a) (Pure.pure a') :=
  L.pure (.ok h)

lemma throw (e : ε) : L.AlikeExcept kind R (throwThe ε e) (throwThe ε e) :=
  L.pure (.error rfl fun _ => rfl)

lemma lift (hp : L.Alike R p p') : L.AlikeExcept kind R (ExceptT.lift p) (ExceptT.lift p') :=
  L.bind hp fun _ _ h => L.pure (.ok h)

lemma bind (hx : L.AlikeExcept kind R x x')
    (hf : ∀ a a', R a a' → L.AlikeExcept kind Q (f a) (f' a')) :
    L.AlikeExcept kind Q (x >>= f) (x' >>= f') := by
  refine L.bind hx ?_
  intro r r' hr
  cases hr with
  | ok h => exact hf _ _ h
  | error hkind h => exact L.pure (.error hkind h)

lemma bindEq {x x' : ExceptT ε (Program S) α} (hx : L.AlikeExcept kind Eq x x')
    (hf : ∀ a, L.AlikeExcept kind Q (f a) (f' a)) : L.AlikeExcept kind Q (x >>= f) (x' >>= f') :=
  hx.bind fun a _ h => h ▸ hf a

lemma map {f : α → γ} (hx : L.AlikeExcept kind R x x') (hf : ∀ a a', R a a' → Q (f a) (f' a')) :
    L.AlikeExcept kind Q (f <$> x) (f' <$> x') :=
  hx.bind fun a a' h => .pure (hf a a' h)

lemma tryCatch {f : ε → ExceptT ε (Program S) α} (hx : L.AlikeExcept kind R x x')
    (hf : ∀ e e', kind e = kind e' → (L.strict → e = e') → L.AlikeExcept kind R (f e) (f' e')) :
    L.AlikeExcept kind R (tryCatchThe ε x f) (tryCatchThe ε x' f') := by
  refine L.bind hx ?_
  intro r r' hr
  cases hr with
  | ok h => exact L.pure (.ok h)
  | error hkind h => exact hf _ _ hkind h

lemma mapM (hds : Forall₂ P ds ds') (hf : ∀ d d', P d d' → L.AlikeExcept kind Q (f d) (f' d')) :
    L.AlikeExcept kind (Forall₂ Q) (ds.mapM f) (ds'.mapM f') := by
  induction hds with
  | nil => exact .pure .nil
  | cons hd _ ih =>
    rw [mapM_cons, mapM_cons]
    refine (hf _ _ hd).bind fun c c' hc => ?_
    exact ih.bind fun cs cs' hcs => .pure (.cons hc hcs)

end AlikeExcept

end Likeness

/-! ## Where names do not matter -/

lemma Value.known_univ (v : Value) : v.Known univ := by
  cases v <;> trivial

lemma Table.Rel.eq_of_same {t t' : Table Value} (h : t.Rel (Value.Rel (.same univ)) t') :
    t = t' := by
  obtain ⟨l⟩ := t
  obtain ⟨l'⟩ := t'
  exact congrArg Table.mk (entries_rel_same.mp h).1

lemma Table.Rel.refl_same (t : Table Value) : t.Rel (Value.Rel (.same univ)) t :=
  entries_rel_same.mpr ⟨rfl, fun e _ => e.2.known_univ⟩

lemma Likeness.outcome_value (L : Likeness S) (hL : L.toNaming = .same univ)
    (h : L.Outcome kind Eq r r') : L.Outcome kind L.value r r' := by
  cases h with
  | @ok v _ h =>
    cases h
    refine .ok ?_
    rw [Likeness.value, hL]
    exact Value.rel_same.mpr ⟨rfl, v.known_univ⟩
  | error hkind h => exact .error hkind h

lemma Query.Rel.eq_of_same {q q' : Query} (h : q.Rel (.same univ) q') : q = q' := by
  cases h with
  | property h | names h | entries h | size h | item h | items h | length h | hostObject h =>
    cases h.2
    rfl
  | display h | json h | number h | classNames h | styleNames h | attributesHtml h =>
    rw [h.eq_of_same]
  | looseEq ha hb => rw [ha.eq_of_same, hb.eq_of_same]
  | mergedAttributes ho hd => rw [ho.eq_of_same, hd.eq_of_same]
  | countAfter => rfl

lemma Query.answerKnown_univ (q : Query) (a : q.Answer) : q.AnswerKnown univ a := by
  have hv (v : Value) : Value.Rel (.same univ) v v := Value.rel_same.mpr ⟨rfl, v.known_univ⟩
  cases q with
  | property =>
    cases a with
    | none => exact .none
    | some v => exact .some (hv v)
  | entries | mergedAttributes => exact forall₂_same.mpr fun e _ => ⟨rfl, hv e.2⟩
  | item => exact hv a
  | items => exact forall₂_same.mpr fun v _ => hv v
  | hostObject =>
    cases a with
    | plain typeName => exact .plain typeName
    | bag attrs => exact .bag (forall₂_same.mpr fun e _ => ⟨rfl, hv e.2⟩)
    | store id state => exact .store ⟨trivial, rfl⟩ ⟨trivial, rfl⟩
    | auth state => exact .auth ⟨trivial, rfl⟩
  | _ => exact rfl

/-- Questions, new containers and reports. -/
def Op.AsksOrMakes : Op S → Prop
  | .read _ | .peek _ | .newObject _ | .newList _ | .log _ => True
  | _ => False

/-- A likeness under which names are equal. -/
def Likeness.ofSame (strict : Prop) (A : Congruence S)
    (perform : ∀ op : Op S, op.AsksOrMakes → A.Alike Eq (Program.perform op) (Program.perform op)) :
    Likeness S :=
  have himp (op : Op S) (hop : op.AsksOrMakes) {R : op.Reply → op.Reply → Prop}
      (h : ∀ r, R r r) : A.Alike R (Program.perform op) (Program.perform op) := by
    have hr : A.Alike R (Program.perform op >>= Pure.pure) (Program.perform op >>= Pure.pure) :=
      A.bind (perform op hop) fun r r' hr => A.pure (hr ▸ h r)
    rwa [bind_pure] at hr
  { toNaming := .same univ
    toCongruence := A
    own := univ
    strict
    loops := True
    own_of_loops := fun _ a => mem_univ a
    read := fun {q q'} hq => by
      obtain rfl := hq.eq_of_same
      exact himp (.read q) trivial q.answerKnown_univ
    peek := fun {o o'} ho _ name => by
      cases ho.2
      exact himp (.peek (.property o name)) trivial (Query.property o name).answerKnown_univ
    newObject := fun {fields fields'} h => by
      obtain rfl := h.eq_of_same
      exact himp (.newObject fields) trivial fun _ => ⟨⟨trivial, rfl⟩, trivial⟩
    newList := fun {items items'} h => by
      obtain rfl := (values_rel_same.mp h).1
      exact himp (.newList items) trivial fun _ => ⟨trivial, rfl⟩
    report := fun _ => himp (.log _) trivial fun _ => trivial }

end LiveMarkup
