import LiveMarkup.Proofs.Provenance

/-!
# The last word

A template may call a method that changes what the template has already shown. The change triggers
the effect of the instance inside itself: the instance is rendered anew, with the new data, and
written to its target. But then the rendering that was interrupted goes on, and writes its own
result to the target as well. So renderings have their say in the reverse of the order in which they
began, and the one that began first has the last word.

So a target shows what a rendering would have shown when the outermost one began, which may differ
from what it would show now, even where nothing changes any more.
-/

namespace LiveMarkup

open Option View

open Program

namespace View

variable {b : Behaviour C} {call : C.Caller} {t : TargetId}

/-- The markup that an instance comes to, without markers, if it is rendered in a world. -/
def freshMarkup (b : Behaviour C) (bound : Nat) (i : InstanceId) (w : C.World) :
    Option String :=
  w.state.instances[i.index]?.bind fun x =>
    ((semantics b).caller bound x.code { w with state := { w.state with pushed := .empty } }).map
      fun r => (Binding.extract (outcome r.2.state.settings r.1).html).markup

/-- Rendering an instance in a world comes to this markup. -/
def RendersTo (b : Behaviour C) (i : InstanceId) (w : C.World) (markup : String) : Prop :=
  ∃ bound, freshMarkup b bound i w = some markup

lemma freshMarkup_mono (hle : bound ≤ bound') (h : freshMarkup b bound i w = some markup) :
    freshMarkup b bound' i w = some markup := by
  obtain ⟨x, hx, h⟩ := bind_eq_some_iff.mp h
  obtain ⟨r, hr, hmarkup⟩ := map_eq_some_iff.mp h
  rw [freshMarkup, hx, bind_some, (semantics b).caller_mono hle _ _ _ hr, ← hmarkup]
  rfl

lemma RendersTo.unique (h : RendersTo b i w markup) (h' : RendersTo b i w markup') :
    markup = markup' := by
  obtain ⟨bound, h⟩ := h
  obtain ⟨bound', h'⟩ := h'
  have hmax := freshMarkup_mono (le_max_left bound bound') h
  rw [freshMarkup_mono (le_max_right bound bound') h'] at hmax
  exact (some.inj hmax).symm

/-! ## What a rendering leaves behind -/

/-- A rendering that returns where the instance is mounted has written its own result to the target,
whatever was there. -/
lemma renderTop_returns (hr : (renderTop i).run call w = some (rendered, w1))
    (ht : w1.state.targetOf i = some t) :
    ∃ x r w2, w.state.instances[i.index]? = some x ∧
      call x.code { w with state := { w.state with pushed := .empty } } = some (r, w2) ∧
      rendered = outcome w2.state.settings r ∧
      w1.state = written i x.data rendered.html t w2.state := by
  rw [renderTop_eq, run_bind, resetStacks, run_modify, bind_some, run_bind, run_instance?,
    bind_some] at hr
  cases hx : w.state.instances[i.index]? with
  | none =>
    -- nothing is rendered, and the instance is mounted nowhere
    rw [hx] at hr
    cases hr
    rw [ViewState.targetOf, hx] at ht
    cases ht
  | some x =>
    rw [hx, found, run_bind] at hr
    obtain ⟨⟨r, w2⟩, hcall, hr⟩ := bind_eq_some_iff.mp hr
    rw [renderInstance, render, Program.call, run_perform] at hcall
    rw [publish, run_bind, run_settled, bind_some] at hr
    refine ⟨x, r, w2, rfl, hcall, ?_⟩
    cases hmounted : w2.state.targetOf i with
    | none =>
      simp only [hmounted] at hr
      cases hr
      exact absurd (ht.symm.trans hmounted) (some_ne_none t)
    | some t' =>
      simp only [hmounted] at hr
      cases hr
      -- writing to a target does not change who is mounted where
      have hsame : some t' = some t := hmounted.symm.trans ht
      cases hsame
      exact ⟨rfl, rfl⟩

lemma shows_of_returned (hr : (renderTop i).run call w = some (rendered, w1))
    (ht : w1.state.targetOf i = some t) (hy : w1.state.targets[t.index]? = some y) :
    ∃ x, w.state.instances[i.index]? = some x ∧ y.Shows i x.data rendered.html := by
  obtain ⟨x, r, w2, hx, -, -, hstate⟩ := renderTop_returns hr ht
  rw [hstate, written, Array.getElem?_modify, if_pos rfl] at hy
  obtain ⟨y2, -, rfl⟩ := map_eq_some_iff.mp hy
  exact ⟨x, hx, rfl, rfl⟩

lemma rendersTo_of_returned
    (hr : (renderTop i).run ((semantics b).caller bound) w = some (rendered, w1))
    (ht : w1.state.targetOf i = some t) (hy : w1.state.targets[t.index]? = some y) :
    RendersTo b i w y.content := by
  obtain ⟨_, -, hshows⟩ := shows_of_returned hr ht hy
  obtain ⟨x, r, w2, hx, hcall, rfl, -⟩ := renderTop_returns hr ht
  refine ⟨bound, ?_⟩
  rw [hshows.content, freshMarkup, hx, bind_some, hcall]
  rfl

/-! ## Until somebody else speaks -/

variable {p : View C α} {c : C.State} {n : Nat} {m : C.Moment}

/-- A target is kept, and shows the same until it is written again. -/
lemma content_of_writes (hb : b.Uses) (hp : p.Uses) (hm : RunsTo b p c l m)
    (hy : m.world.state.targets[t.index]? = some y) (hl : l ≤ n) (hm' : RunsTo b p c n m')
    (hy' : m'.world.state.targets[t.index]? = some y') (hwrites : y'.writes = y.writes) :
    y'.content = y.content := by
  -- writes are counted, so the count tells whether there was one
  have hkept : ∃ y', m'.world.state.targets[t.index]? = some y' ∧ y.writes ≤ y'.writes ∧
      (y'.writes = y.writes → y'.content = y.content) := by
    refine Semantics.after_stretch (P := fun m : C.Moment =>
      ∃ y', m.world.state.targets[t.index]? = some y' ∧ y.writes ≤ y'.writes ∧
        (y'.writes = y.writes → y'.content = y.content))
      hm ⟨y, hy, le_rfl, fun _ => rfl⟩ ?_ hl hm'
    rintro j m1 m2 - - hm1 hm2 ⟨y1, hy1, hle, hsame⟩
    have htreats := (moves_after hb hp hm1 (Semantics.step_of_after hm1 hm2)).targets t
    rw [hy1] at htreats
    generalize m2.world.state.targets[t.index]? = y2 at htreats
    cases htreats with
    | leaves => exact ⟨y1, rfl, hle, hsame⟩
    | detaches => exact ⟨_, rfl, hle, hsame⟩
    | writes hx ht html =>
      refine ⟨_, rfl, Nat.le_succ_of_le hle, fun heq => ?_⟩
      have hmore : y1.writes + 1 = y.writes := heq
      omega
  obtain ⟨y2, hy2, -, hsame⟩ := hkept
  rw [hy'] at hy2
  cases hy2
  exact hsame hwrites

/-- At every moment of every run of an application that leaves instances and targets to the view
layer, and so when the outermost mount or the outermost change of data returns: a target that has
been written was written last by a rendering that is over, and shows what there was to show when
that rendering began, whatever renderings ran inside it and wrote to the target meanwhile. So what
it shows is current exactly if rendering the instance when that rendering began would have come to
the same markup as rendering it now. -/
theorem content_dates_from_begin_of_rendering (hb : b.Uses) (hp : p.Uses) {y : Target}
    (hm : (semantics b).after (opening p c) n = some m)
    (hy : m.world.state.targets[t.index]? = some y) (hwritten : y.writes ≠ 0) :
    ∃ i l j w w₁, l < j ∧ j ≤ n ∧ Rendering b (opening p c) i l j w w₁ ∧
      w₁.state.targetOf i = some t ∧ w₁.state.writesTo t = y.writes ∧
      RendersTo b i w y.content ∧
      ∀ markup, RendersTo b i m.world markup → (y.content = markup ↔ RendersTo b i w markup) := by
  have hcount : m.world.state.writesTo t = y.writes := ViewState.writesTo_of_target hy
  obtain ⟨i, l, j, w, w₁, hl, hj, hrendering, ht, hwrites⟩ :=
    rendering_of_written hb hp hm (hcount ▸ hwritten)
  rw [hcount] at hwrites
  obtain ⟨y₁, hy₁, hcount₁⟩ := ViewState.target_of_writesTo (hwrites ▸ hwritten)
  have hthen : RendersTo b i w y.content := by
    obtain ⟨β, f, k, rendered, bound, -, hrun, hreturned⟩ := hrendering
    rw [content_of_writes hb hp hreturned hy₁ hj hm hy (hwrites.symm.trans hcount₁)]
    exact rendersTo_of_returned hrun ht hy₁
  refine ⟨i, l, j, w, w₁, hl, hj, hrendering, ht, hwrites, hthen, fun markup hnow => ?_⟩
  constructor
  · rintro rfl
    exact hthen
  · exact hthen.unique

end View

/-! ### A tally that counts itself -/

namespace Tally

def behaviour : Behaviour .single where
  invoke _ occasion :=
    match occasion with
    | .method data _ => .step (.read (.property data "count")) fun
      | some (.text "0") =>
        .step (.write (.set data "count" (.text "1"))) fun _ => .done (.ok (.text ""))
      | _ => .done (.ok (.text ""))
    | _ => .done (.ok .undefined)
  task t := nomatch t

def tally : Definition Client.single.Body where
  name := "tally"
  source := .routine ⟨[.echo (.name "count"), .echo (.call (.name "bump") [])]⟩
  methods := .ofList [("bump", ())]

def visit : View .single Unit :=
  .step (.newObject (.ofList [("count", .text "0")])) fun o =>
    construct tally { data := some o } >>= keep >>= fun i =>
      newTarget "#app" >>= fun t => mountTarget i t >>= .done

lemma uses_behaviour : behaviour.Uses := by
  refine ⟨fun _ occasion => ?_, nofun⟩
  cases occasion with
  | method data args =>
    refine .step trivial fun v => ?_
    split
    · exact .step trivial fun _ => .done _
    · exact .done _
  | _ => exact .done _

lemma uses_visit : visit.Uses :=
  .step trivial fun _ => .create tally _ fun i => .newTarget "#app" fun t =>
    .mountTarget i t fun _ => .done ()

/-- When the tally has been mounted, two renderings have been written. What the target shows is what
there was to show when the last one to return began; by now there is something else. -/
theorem content_dates_from_begin_of_rendering_tally :
    ∃ m y l j w w₁, (View.semantics behaviour).after (View.opening visit ()) 75 = some m ∧
      m.world.state.targets[0]? = some y ∧ y.writes = 2 ∧ l < j ∧ j ≤ 75 ∧
      View.Rendering behaviour (View.opening visit ()) ⟨0⟩ l j w w₁ ∧
      View.RendersTo behaviour ⟨0⟩ w "0" ∧ y.content = "0" ∧
      View.RendersTo behaviour ⟨0⟩ m.world "1" ∧ ¬ View.RendersTo behaviour ⟨0⟩ w "1" := by
  have hcheck : ((semantics behaviour).after (opening visit ()) 75).any (fun m =>
      freshMarkup behaviour 6 ⟨0⟩ m.world == some "1" &&
        m.world.state.targets[0]?.any fun y => y.content == "0" && y.writes == 2) = true := by
    decide +kernel
  simp only [any_eq_true, Bool.and_eq_true, beq_iff_eq] at hcheck
  obtain ⟨m, hm, hnow, y, hy, hcontent, hwrites⟩ := hcheck
  have hwritten : y.writes ≠ 0 := by omega
  obtain ⟨i, l, j, w, w₁, hl, hj, hrendering, ht, -, hthen, hiff⟩ :=
    content_dates_from_begin_of_rendering uses_behaviour uses_visit (t := ⟨0⟩) hm hy hwritten
  obtain ⟨β, f, k, rendered, bound, -, -, hreturned⟩ := id hrendering
  obtain rfl : i = ⟨0⟩ := ViewState.eq_zero_of_passes (by decide +kernel) hj hreturned ht
  rw [hcontent] at hthen hiff
  refine ⟨m, y, l, j, w, w₁, hm, hy, hwrites, hl, hj, hrendering, hthen, hcontent, ⟨6, hnow⟩, ?_⟩
  intro hone
  exact absurd ((hiff "1" ⟨6, hnow⟩).mpr hone) (by decide)

def isOne (w : World Client.single.signature) : Bool :=
  match w.heap.fields ⟨0⟩ with
  | ⟨[("count", .text "1")]⟩ => true
  | _ => false

lemma fields_of_isOne (h : isOne w = true) : w.heap.fields ⟨0⟩ = ⟨[("count", .text "1")]⟩ := by
  unfold isOne at h
  split at h
  · assumption
  · cases h

/-- The tally shows a zero when it has been mounted, although the count is one by then, and
rendering it once more would show that and change nothing. No run was refused on the way. -/
theorem mounted_tally_is_stale :
    ∃ w y x r w', visit.run ((View.semantics behaviour).caller 7) { state := { client := () } } =
        some ((), w) ∧
      .event .effectTooDeep ∉ w.log ∧ w.state.targets[0]? = some y ∧ y.content = "0" ∧
      w.state.instances[0]? = some x ∧ x.data = ⟨0⟩ ∧
      (semantics behaviour).caller 7 x.code
        { w with state := { w.state with pushed := .empty } } = some (r, w') ∧
      w'.heap.fields x.data = w.heap.fields x.data ∧
      freshMarkup behaviour 7 ⟨0⟩ w = some "1" := by
  -- one evaluation of the visit decides everything; worlds themselves cannot be compared
  have hcheck : (visit.run ((semantics behaviour).caller 7) { state := { client := () } }).any
      (fun r => decide (.event .effectTooDeep ∉ r.2.log) &&
        r.2.state.targets[0]?.any (fun y => y.content == "0") && isOne r.2 &&
        freshMarkup behaviour 7 ⟨0⟩ r.2 == some "1" &&
        r.2.state.instances[0]?.any fun x => decide (x.data = ⟨0⟩) &&
          ((semantics behaviour).caller 7 x.code
            { r.2 with state := { r.2.state with pushed := .empty } }).any fun r' => isOne r'.2) =
        true := by decide +kernel
  simp only [any_eq_true, Bool.and_eq_true, beq_iff_eq, decide_eq_true_eq] at hcheck
  obtain ⟨⟨⟨⟩, w⟩, hrun, ⟨⟨⟨hlog, y, hy, hcontent⟩, hone⟩, hfresh⟩, x, hx, hdata, ⟨r, w'⟩, hagain,
    hone'⟩ := hcheck
  refine ⟨w, y, x, r, w', hrun, hlog, hy, hcontent, hx, hdata, hagain, ?_, hfresh⟩
  rw [hdata, fields_of_isOne hone, fields_of_isOne hone']

end Tally

end LiveMarkup
