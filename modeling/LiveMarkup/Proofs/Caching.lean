import LiveMarkup.Proofs.Machine
import LiveMarkup.View.Semantics
import Mathlib.Data.List.Basic

/-!
# Templates are compiled once

A definition keeps the routine that its template compiles to in a cell, and copies of the definition
share the cell. One that is given another template or a routine must stop sharing it, and one that
is given anything else must not. Here definitions are made, changed, copied and compiled in any order,
and of each it is noted what it was given last. What it compiles to is always that, and a text that
fails to compile is reported when the template call that brought it is first compiled, never again.
-/

namespace LiveMarkup

open View

variable {C : Client}

/-- What can be done with a definition. -/
inductive Deed (B : Type)
  | template (text : String)
  | routine (r : Routine)
  | factory (b : B)
  | method (name : String) (b : B)
  | props (names : List String)
  | mounted (b : B)
  | unmounted (b : B)
  | clone
  | compile

/-- A step of some drafts: a new definition, a deed with one of those at hand, or anything else that
leaves the cells alone. -/
inductive Draft (C : Client)
  | new (name : String)
  | deed (i : Nat) (x : Deed C.Body)
  | meanwhile (f : C.World → C.World) (h : ∀ w, (f w).state.cells = w.state.cells)

/-- What a definition was given last: the template of a call, by its number, or a routine. -/
inductive Given
  | template (number : Nat)
  | routine (r : Routine)

/-- The definitions at hand, each with what it was given last, the texts of all template calls, the
calls that have been compiled, and those whose compilation was reported, once for each time. -/
structure Drafts (C : Client) where
  definitions : List (Definition C.Body × Given) := []
  texts : List String := []
  compiled : List Nat := []
  reported : List Nat := []
  world : C.World

namespace Drafts

/-- The routine that a definition is to be rendered with: the one it was given, or what the text of
its template compiles to, or a fixed text if that does not compile. -/
def routine (t : Drafts C) : Given → Routine
  | .template k =>
    match Routine.compile (t.texts.getD k "") with
    | .ok r => r
    | .error _ => ⟨[.text "Error compiling template"]⟩
  | .routine r => r

/-- What is to be reported when a definition is compiled: that its text does not compile, the first
time that this template call is. -/
def report (t : Drafts C) : Given → List LogLine
  | .template k =>
    if k ∈ t.compiled then []
    else
      match Routine.compile (t.texts.getD k "") with
      | .ok _ => []
      | .error _ => [.event .templateFailed]
  | .routine _ => []

/-- Notes that a definition was compiled, which led to a world. -/
def compile (t : Drafts C) (v : C.World) : Given → Drafts C
  | .template k =>
    { t with
      compiled := k :: t.compiled
      reported := if v.log.size = t.world.log.size then t.reported else k :: t.reported
      world := v }
  | .routine _ => { t with world := v }

def put (t : Drafts C) (i : Nat) (d : Definition C.Body) (g : Given) : Drafts C :=
  { t with definitions := t.definitions.set i (d, g) }

/-- What comes of a deed with the `i`-th definition. -/
def deed (call : C.Caller) (t : Drafts C) (i : Nat) (d : Definition C.Body) (g : Given) :
    Deed C.Body → Option (Drafts C)
  | .template text => ((withTemplate d text).run call t.world).map fun r =>
    { t.put i r.1 (.template t.texts.length) with texts := t.texts ++ [text], world := r.2 }
  | .routine r => some (t.put i (d.withRoutine r) (.routine r))
  | .factory b => some (t.put i (d.withFactory b) g)
  | .method name b => some (t.put i (d.withMethod name b) g)
  | .props names => some (t.put i (d.withProps names) g)
  | .mounted b => some (t.put i (d.onMounted b) g)
  | .unmounted b => some (t.put i (d.onUnmounted b) g)
  | .clone => some { t with definitions := t.definitions ++ [(d, g)] }
  | .compile => ((routineOf d).run call t.world).map fun r => t.compile r.2 g

def step (call : C.Caller) (t : Drafts C) : Draft C → Option (Drafts C)
  | .new name => ((newDefinition name).run call t.world).map fun r =>
    { t with
      definitions := t.definitions ++ [(r.1, .template t.texts.length)]
      texts := t.texts ++ [""]
      world := r.2 }
  | .deed i x => t.definitions[i]?.elim (some t) fun e => t.deed call i e.1 e.2 x
  | .meanwhile f _ => some { t with world := f t.world }

end Drafts

/-- The source of a definition that was given something, if the cells of the template calls begin at
`base`. -/
def Given.source (texts : List String) (base : Nat) : Given → Option Source
  | .template k => texts[k]?.map fun text => .template text ⟨base + k⟩
  | .routine r => some (.routine r)

/-- Definitions have the sources that they were given, and the cells of template calls hold what has
been compiled. -/
structure Drafts.Coherent (base : Nat) (t : Drafts C) : Prop where
  sources : ∀ x ∈ t.definitions, x.2.source t.texts base = some x.1.source
  size : t.world.state.cells.size = base + t.texts.length
  cells : ∀ (k : Nat) text, t.texts[k]? = some text →
    t.world.state.cells[base + k]? =
      some (if k ∈ t.compiled then some (compileTemplate text) else none)
  known : ∀ k ∈ t.compiled, k < t.texts.length
  reported : t.reported ⊆ t.compiled
  once : t.reported.Nodup

/-- A call to compile fills the cell, and reports if it was empty. -/
lemma View.run_routineOf {d : Definition C.Body} {w : C.World} (call : C.Caller)
    (hd : d.source = .template text cell) (hcell : w.state.cells[cell.index]? = some r)
    (hr : ∀ x ∈ r, x = compileTemplate text) :
    ∃ v, (routineOf d).run call w = some (compileTemplate text, v) ∧
      v.log = w.log ++ (if r.isNone then compileReport text else []).toArray ∧
      v.state.cells = w.state.cells.setIfInBounds cell.index (some (compileTemplate text)) := by
  have hjoin : w.state.cells[cell.index]?.join = r := by rw [hcell, Option.join_some]
  have hget : r.getD (compileTemplate text) = compileTemplate text := by
    cases r with
    | none => rfl
    | some x => exact hr x rfl
  refine ⟨{ w.write (if r.isNone then compileReport text else []) with
    state := { w.state with
      cells := w.state.cells.setIfInBounds cell.index (some (compileTemplate text)) } }, ?_, rfl, rfl⟩
  rw [routineOf, hd]
  subst hjoin
  rw [← hget]
  rfl

namespace Drafts.Coherent

variable {base : Nat} {t : Drafts C}

lemma source_append {g : Given} (h : g.source us base = some x) (text : String) :
    g.source (us ++ [text]) base = some x := by
  cases g with
  | routine r => exact h
  | template k =>
    obtain ⟨t, ht, rfl⟩ := Option.map_eq_some_iff.mp h
    simp [Given.source, List.getElem?_append_left (List.getElem?_eq_some_iff.mp ht).1, ht]

lemma put (h : t.Coherent base) (i : Nat) {d : Definition C.Body}
    (hd : g.source t.texts base = some d.source) : (t.put i d g).Coherent base where
  sources x hx := by
    rcases List.mem_or_eq_of_mem_set hx with hx | rfl
    · exact h.sources x hx
    · exact hd
  size := h.size
  cells := h.cells
  known := h.known
  reported := h.reported
  once := h.once

/-- A template call comes with a new cell, of which no definition knows yet. -/
lemma template (h : t.Coherent base) (text : String) {ds : List (Definition C.Body × Given)}
    (hnew : ∀ x ∈ ds, x ∈ t.definitions ∨
      x.1.source = .template text ⟨t.world.state.cells.size⟩ ∧ x.2 = .template t.texts.length) :
    { t with
      definitions := ds
      texts := t.texts ++ [text]
      world.state.cells := t.world.state.cells.push none : Drafts C }.Coherent base where
  sources x hx := by
    rcases hnew x hx with hx | ⟨hd, hg⟩
    · exact source_append (h.sources x hx) text
    · simp [Given.source, hd, hg, h.size]
  size := by simp [h.size, Nat.add_assoc]
  cells k u hk := by
    have hsize := h.size
    have hcells := h.cells k u
    have hknown := h.known k
    grind
  known k hk := by
    have hlt := h.known k hk
    simp
    omega
  reported := h.reported
  once := h.once

/-- Compiling a definition fills the cell of its template call, if it is still empty. -/
lemma compile (h : t.Coherent base) (hx : (d, g) ∈ t.definitions) (call : C.Caller) :
    ∃ v, (routineOf d).run call t.world = some (t.routine g, v) ∧
      v.log = t.world.log ++ (t.report g).toArray ∧
      (t.compile v g).Coherent base := by
  have hsource := h.sources _ hx
  cases g with
  | routine r =>
    have hd : d.source = .routine r := (Option.some.inj hsource).symm
    refine ⟨t.world, ?_, by simp [report], h⟩
    rw [routineOf, hd]
    rfl
  | template k =>
    obtain ⟨text, hk, hd⟩ := Option.map_eq_some_iff.mp hsource
    have htext : t.texts.getD k "" = text := by simp [hk]
    have hcell := h.cells k text hk
    obtain ⟨v, hrun, hlog, hcells⟩ := run_routineOf call hd.symm hcell (by grind)
    have hreported := h.reported
    refine ⟨v, ?_, ?_, h.sources, ?_, fun k' text' hk' => ?_, ?_, ?_, ?_⟩
    · rw [hrun, Drafts.routine, htext]
      rfl
    · rw [hlog, report, htext]
      split <;> rfl
    · rw [Drafts.compile, hcells, Array.size_setIfInBounds]
      exact h.size
    · have hcell' := h.cells k' text' hk'
      grind [Drafts.compile]
    · have hlt := (List.getElem?_eq_some_iff.mp hk).1
      exact List.forall_mem_cons.mpr ⟨hlt, h.known⟩
    · grind [Drafts.compile]
    · have honce := h.once
      grind [Drafts.compile]

/-- Every step can be taken. -/
lemma step (h : t.Coherent base) (call : C.Caller) (x : Draft C) :
    ∃ t', t.step call x = some t' ∧ t'.Coherent base := by
  cases x with
  | new name => exact ⟨_, rfl, h.template "" (by simp; grind)⟩
  | meanwhile f hf =>
    refine ⟨_, rfl, h.sources, ?_, ?_, h.known, h.reported, h.once⟩ <;> rw [hf]
    exacts [h.size, h.cells]
  | deed i x =>
    cases hi : t.definitions[i]? with
    | none => exact ⟨t, by simp [Drafts.step, hi], h⟩
    | some e =>
      obtain ⟨d, g⟩ := e
      have hx := List.mem_of_getElem? hi
      have hd := h.sources _ hx
      simp only [Drafts.step, hi, Option.elim_some]
      cases x with
      | template text =>
        refine ⟨_, rfl, h.template text fun x hx => ?_⟩
        rcases List.mem_or_eq_of_mem_set hx with hx | rfl
        exacts [.inl hx, .inr ⟨rfl, rfl⟩]
      | routine r => exact ⟨_, rfl, h.put i rfl⟩
      | clone =>
        have hsources := List.forall_mem_append.mpr ⟨h.sources, List.forall_mem_singleton.mpr hd⟩
        exact ⟨_, rfl, hsources, h.size, h.cells, h.known, h.reported, h.once⟩
      | compile =>
        obtain ⟨v, hrun, -, hv⟩ := h.compile hx call
        exact ⟨_, by rw [Drafts.deed, hrun]; rfl, hv⟩
      | _ => exact ⟨_, rfl, h.put i hd⟩

end Drafts.Coherent

/-- The cache never goes stale. After any steps, with any number of definitions made from one
another and whatever else went on, a definition that was given a routine last compiles to it, and
one that was given a template last compiles to what its text does, or to the fixed text if that
fails. A failure is reported only when the template call is first compiled, through whichever
definition, so no call is reported twice. The last thing that the making of an instance does is to
compile its definition, and what comes of it is the routine of the instance. -/
theorem Drafts.routineOf_current (call : C.Caller) (xs : List (Draft C)) (w : C.World) :
    (∃ t, xs.foldlM (step call) { world := w } = some t ∧ t.reported.Nodup ∧
      ∀ x ∈ t.definitions, ∃ v, (routineOf x.1).run call t.world = some (t.routine x.2, v) ∧
        v.log = t.world.log ++ (t.report x.2).toArray) ∧
    ∀ (d : Definition C.Body) o hooks previous data v i v',
      (assemble d o hooks previous data).run call v = some (i, v') →
        ∃ u, (routineOf d).run call u = some (i.routine, v') := by
  have run : ∀ {t : Drafts C} {base}, t.Coherent base →
      ∃ t', xs.foldlM (step call) t = some t' ∧ t'.Coherent base := by
    induction xs with
    | nil => exact fun {t _} h => ⟨t, rfl, h⟩
    | cons x xs ih =>
      intro t base h
      obtain ⟨t', hstep, h'⟩ := h.step call x
      obtain ⟨t'', hrun, h''⟩ := ih h'
      exact ⟨t'', by rw [List.foldlM_cons, hstep]; exact hrun, h''⟩
  constructor
  · obtain ⟨t, hrun, h⟩ := run (t := { world := w }) ⟨nofun, rfl, nofun, nofun, nofun, .nil⟩
    refine ⟨t, hrun, h.once, fun x hx => ?_⟩
    obtain ⟨v, hv, hlog, -⟩ := h.compile hx call
    exact ⟨v, hv, hlog⟩
  · intro d o hooks previous data v i v' hi
    simp only [assemble, Program.run_bind, Option.bind_eq_some_iff] at hi
    obtain ⟨_, -, _, -, _, -, _, -, ⟨routine, v''⟩, hroutine, hi⟩ := hi
    cases hi
    exact ⟨_, hroutine⟩

end LiveMarkup
