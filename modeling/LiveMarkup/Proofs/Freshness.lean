import Mathlib
import LiveMarkup.Proofs.Upkeep

/-!
# Effects that only look stay fresh

An effect whose body asks questions and writes down what it found has always written down what it
would find now, whenever no effect runs. The other effects may do what they like: change
containers, trigger each other and themselves, be refused for nesting too deep, or be disposed of.

What an effect writes down is a line of the log. Its own lines are told apart from all others, so
the last of them is what its last run recorded.
-/

namespace LiveMarkup

open Option World Program

variable {sem : Semantics S} {m : Conduct S} {ρ : Type}

/-! ## Programs that only look -/

/-- A program that does nothing but ask, and only about known things. -/
inductive Program.Looks (K : Set Ref) : Program S ρ → Prop
  | done (a : ρ) : Looks K (done a)
  | read {q : Query} {next : q.Answer → Program S ρ} (hq : q.Known K)
      (rest : ∀ a, q.AnswerKnown K a → Looks K (next a)) : Looks K (step (.read q) next)

/-- What a program that only looks finds in a heap, with the slots it looked at. -/
def Program.findings (h : Heap) : Program S ρ → Option (ρ × List Slot)
  | .done a => some (a, [])
  | .step (.read q) next =>
    (q.answer h).bind fun (a, slots) =>
      ((next a).findings h).map fun (r, more) => (r, slots ++ more)
  | .step _ _ => none

variable {p : Program S ρ}

/-- Running a program that only looks gives what it finds and tracks what it looked at. -/
lemma Program.Looks.run (hp : p.Looks K) (hK : w.heap.Sealed K) (call : Caller S) :
    p.run call w = (p.findings w.heap).map fun f => (f.1, w.trackAll f.2) := by
  induction hp generalizing w with
  | done a => rfl
  | @read q next hq _ ih =>
    rw [run_step, findings]
    cases ha : q.answer w.heap with
    | none => simp [Op.perform, ha]
    | some f =>
      obtain ⟨a, slots⟩ := f
      have hrest := ih a (hK.answer_known hq ha).1 (w := w.trackAll slots)
        (by rwa [heap_trackAll])
      simp only [Op.perform, ha, map_some, bind_some, hrest, heap_trackAll, map_map]
      congr 1
      funext f
      simp [trackAll_append]

lemma Program.Looks.findings_congr (hp : p.Looks K) (hK : h.Sealed K) (he : h.Extends h')
    (hf : p.findings h = some (r, slots)) (hu : ∀ s ∈ slots, h.Unchanged h' s) :
    p.findings h' = some (r, slots) ∧ ∀ s ∈ slots, s.container.ref ∈ K := by
  induction hp generalizing slots with
  | done a =>
    cases hf
    exact ⟨rfl, by simp⟩
  | @read q next hq _ ih =>
    rw [findings] at hf
    obtain ⟨⟨a, first⟩, ha, hrest⟩ := bind_eq_some_iff.mp hf
    obtain ⟨⟨r', more⟩, hmore, ⟨⟩⟩ := map_eq_some_iff.mp hrest
    obtain ⟨ha', hknown, hfirst⟩ := hK.answer he hq ha fun s hs =>
      hu s (List.mem_append.mpr (.inl hs))
    obtain ⟨hmore', hslots⟩ := ih a hknown hmore fun s hs =>
      hu s (List.mem_append.mpr (.inr hs))
    refine ⟨?_, fun s hs => (List.mem_append.mp hs).elim (hfirst s) (hslots s)⟩
    simp [findings, ha', hmore']

/-! ## Effects that write down what they find -/

def lastNote (isNote : LogLine → Bool) (log : Array LogLine) : Option LogLine :=
  (log.toList.filter isNote).getLast?

/-- Code that looks and then writes a note of what it found. No other code writes such notes or runs
this one, and nobody makes its effects forget what they depend on. -/
structure Reader (sem : Semantics S) (m : Conduct S) (ρ : Type) where
  code : S.Code
  look : Program S ρ
  note : ρ → LogLine
  reply : ρ → S.Reply code
  isNote : LogLine → Bool
  code_eq : sem code = look >>= fun r => .step (.log [note r]) fun _ => .done (reply r)
  looks : ∀ {K}, m.code K code → look.Looks K
  note_isNote : ∀ r, isNote (note r) = true
  event_not_isNote : ∀ e, isNote (.event e) = false
  log : ∀ {lines}, m.permits (.log lines) → ∀ line ∈ lines, isNote line = false
  call : ∀ {c}, m.permits (.call c) → c ≠ code
  within : ∀ {e c}, m.permits (.within e c) → c ≠ code
  clear : ∀ {e}, ¬ m.permits (.clearDependencies e)

namespace Reader

/-- An effect is fresh when its last note tells what it would find now, and it is subscribed to all
it would look at. -/
def watch (x : Reader sem m ρ) : Watch S where
  Watched c := c = x.code
  Quiet _ := False
  Pinned _ := False
  Silent line := x.isNote line = false
  Good _ w := 1 ≤ w.maxDepth ∧ ∀ e, w.effectBody e = some x.code → w.effectDepth e = 0
  Fresh e w := ∃ r slots, x.look.findings w.heap = some (r, slots) ∧
    (∀ s ∈ slots, e ∈ w.registry.subscribersOf s) ∧
    lastNote x.isNote w.log = some (x.note r)

variable {isNote : LogLine → Bool} {log : Array LogLine}

lemma lastNote_append_silent {lines : List LogLine} (h : ∀ line ∈ lines, isNote line = false) :
    lastNote isNote (log ++ lines.toArray) = lastNote isNote log := by
  have hnone : lines.filter isNote = [] := by
    rw [List.filter_eq_nil_iff]
    intro line hline
    simp [h line hline]
  simp [lastNote, hnone]

lemma lastNote_append_note (h : isNote line = true) :
    lastNote isNote (log ++ [line].toArray) = some line := by
  simp [lastNote, h]

section

variable (x : Reader sem m ρ)
include x

lemma fresh_like (hl : x.watch.Like w w') (hb : w'.effectBody e = some x.code)
    (hf : x.watch.Fresh e w) : x.watch.Fresh e w' := by
  obtain ⟨r, slots, hfind, hsubs, hnote⟩ := hf
  refine ⟨r, slots, by rw [hl.heap]; exact hfind, ?_, ?_⟩
  · intro s hs
    exact hl.subscribers hb rfl (hsubs s hs)
  · obtain ⟨lines, hlog, hsilent⟩ := hl.log
    rw [hlog, lastNote_append_silent hsilent]
    exact hnote

lemma fresh_heap (hK : w.Sealed m K) (he : w.heap.Extends h) (hb : w.effectBody e = some x.code)
    (hf : x.watch.Fresh e w)
    (hu : ∀ s, s.container.ref ∈ K → e ∈ w.registry.subscribersOf s → w.heap.Unchanged h s) :
    x.watch.Fresh e { w with heap := h } := by
  obtain ⟨r, slots, hfind, hsubs, hnote⟩ := hf
  have hlooks := x.looks (hK.effects hb)
  have hknown := (hlooks.findings_congr hK.heap (.refl _) hfind
    fun _ _ => .of_eq (fun _ _ => rfl) fun _ _ => rfl).2
  have hfind' := (hlooks.findings_congr hK.heap he hfind
    fun s hs => hu s (hknown s hs) (hsubs s hs)).1
  exact ⟨r, slots, hfind', hsubs, hnote⟩

section

variable (h : x.watch.Inv m K P (e :: E) w) (hb : w.effectBody e = some x.code)
include h hb

/-- After a run that found `a` and looked at `slots`, the effect and all others with its code are
fresh. -/
lemma refreshed (hf : x.look.findings w.heap = some (a, slots))
    (hs : ∀ s ∈ slots, s.container.ref ∈ K) : x.watch.Inv m K P E
      ((((w.enter e).trackAll slots).write [x.note a]).leave e w.active) := by
  have hwrite : (((w.enter e).trackAll slots).write [x.note a]).Sealed m K :=
    ((h.sealed.enter e).trackAll hs).congr rfl rfl id fun p hp => ⟨p, hp, rfl⟩
  generalize hw1 : (((w.enter e).trackAll slots).write [x.note a]).leave e w.active = w1
  have heffects : w1.effects = ((w.modifyDepth e (· + 1)).modifyDepth e (· - 1)).effects := by
    rw [← hw1]
    simp [leave, modifyDepth, World.write, effects_trackAll, effects_enter]
  have hbody : ∀ e', w1.effectBody e' = w.effectBody e' := by
    intro e'
    rw [effectBody_congr heffects, effectBody_modifyDepth, effectBody_modifyDepth]
  have hdepth : ∀ e', w1.effectDepth e' = w.effectDepth e' := by
    intro e'
    rw [effectDepth_congr heffects]
    by_cases he : e' = e
    · subst he
      have hlt := index_lt_of_effectBody hb
      rw [effectDepth_modifyDepth_self _ _ (by simpa [modifyDepth] using hlt),
        effectDepth_modifyDepth_self _ _ hlt, Nat.add_sub_cancel]
    · rw [effectDepth_modifyDepth_of_ne _ _ he, effectDepth_modifyDepth_of_ne _ _ he]
  have hheap : w1.heap = w.heap := by
    rw [← hw1]
    exact (heap_trackAll _ slots).trans (heap_enter w e)
  have hsubs : ∀ {e' s}, e' ∈ w1.registry.subscribersOf s ↔
      e' ∈ (w.registry.clearDependencies e).subscribersOf s ∨ e' = e ∧ s ∈ slots := by
    intro e' s
    rw [← hw1, ← registry_enter]
    exact mem_subscribersOf_trackAll (active_enter w e) slots
  have hnote : lastNote x.isNote w1.log = some (x.note a) := by
    rw [← hw1]
    exact lastNote_append_note (x.note_isNote a)
  have hmax : w1.maxDepth = w.maxDepth := by
    rw [← hw1]
    exact (maxDepth_trackAll _ slots).trans (maxDepth_enter w e)
  refine ⟨hw1 ▸ hwrite.leave e w.active, ⟨hmax ▸ h.good.1, ?_⟩, ?_⟩
  · intro e' hb'
    rw [hdepth, h.good.2 e' (hbody e' ▸ hb')]
  · rintro e' c hb' rfl
    by_cases he : e' = e
    · exact .inl ⟨a, slots, hheap ▸ hf, fun s hs => hsubs.mpr (.inr ⟨he, hs⟩), hnote⟩
    have hkept : ∀ {s}, e' ∈ w.registry.subscribersOf s → e' ∈ w1.registry.subscribersOf s :=
      fun hs => hsubs.mpr (.inl (Registry.mem_subscribersOf_clearDependencies he hs))
    rcases h.due (hbody e' ▸ hb') rfl with ⟨r, slots', hf', hsub, -⟩ | ⟨s, hs, hsub⟩ | hmem
    · obtain ⟨rfl, rfl⟩ := Prod.mk.inj (some.inj (hf.symm.trans hf'))
      exact .inl ⟨a, slots, hheap ▸ hf, fun s hs => hkept (hsub s hs), hnote⟩
    · exact .inr (.inl ⟨s, hs, hkept hsub⟩)
    · exact .inr (.inr ((List.mem_cons.mp hmem).resolve_left he))

lemma refresh {call : Caller S} (hr : (sem x.code).run call (w.enter e) = some (r, w')) :
    x.watch.Inv m K P E (w'.leave e w.active) := by
  have hlooks := x.looks (h.sealed.effects hb)
  have henter : (w.enter e).heap.Sealed K := by
    rw [heap_enter]
    exact h.sealed.heap
  rw [x.code_eq, run_bind, hlooks.run henter, heap_enter] at hr
  cases hf : x.look.findings w.heap with
  | none => simp [hf] at hr
  | some f =>
    obtain ⟨a, slots⟩ := f
    simp only [hf, map_some, bind_some] at hr
    obtain ⟨rfl, rfl⟩ := Prod.mk.inj (some.inj hr)
    have hknown := (hlooks.findings_congr h.sealed.heap (.refl _) hf
      fun _ _ => .of_eq (fun _ _ => rfl) fun _ _ => rfl).2
    exact x.refreshed h hb hf hknown

end

lemma upkeep
    (hothers : ∀ {c K}, c ≠ x.code → m.code K c → (sem c).Honest m (fun K r => m.reply K c r) K) :
    Upkeep sem sem.caller m x.watch where
  admits := sem.admits_caller
  honest hw _ hc := hothers hw hc
  quiet hq := hq.elim
  call hp := x.call hp
  within hp := x.within hp
  clear := x.clear
  dispose _ := id
  log hp := x.log hp
  event := x.event_not_isNote
  good_like := by
    intro K w w' hl hgood
    refine ⟨hl.maxDepth ▸ hgood.1, ?_⟩
    intro e hb
    have hd := hl.depth hb rfl
    rw [hgood.2 e (hl.body hb rfl)] at hd
    exact Nat.le_zero.mp hd
  fresh_like := by
    rintro w w' e c hl hb rfl hf
    exact x.fresh_like hl hb hf
  grow := by
    intro K K' w heap hK _ he hu hgood
    refine ⟨hgood, ?_⟩
    rintro e c hb rfl hf
    exact x.fresh_heap hK he hb hf fun s hs _ => hu s (hK.heap.holds _ hs)
  change := by
    intro K w u hK _ hgood
    refine ⟨hgood, ?_⟩
    rintro e c hb rfl hf
    by_cases htold : ∃ s ∈ (u.apply w.heap).2.2, e ∈ w.registry.subscribersOf s
    · exact .inr htold
    · refine .inl (x.fresh_heap hK (u.extends_apply w.heap) hb hf ?_)
      intro s _ hsub
      exact u.unchanged_of_notMem w.heap fun hs => htold ⟨s, hs, hsub⟩
  modify := by
    intro K K' w y _ _ _ _ hgood
    exact ⟨hgood, fun _ _ hf => hf⟩
  limit := by
    intro K w n _ hgood
    exact ⟨⟨le_max_right n 1, hgood.2⟩, fun hf => hf⟩
  spawn := by
    intro K w c _ hgood
    refine ⟨⟨hgood.1, ?_⟩, fun _ _ hf => hf⟩
    intro e hb
    rw [effectBody_newEffect] at hb
    rw [effectDepth_newEffect]
    split at hb
    · rename_i hnew
      exact effectDepth_of_size_le (Nat.le_of_eq hnew.symm)
    · exact hgood.2 e hb
  room := by
    rintro K w e c hgood hb rfl
    rw [hgood.2 e hb]
    exact hgood.1

lemma refreshes : x.watch.Refreshes sem sem.caller m := by
  rintro n _ K P E w w' e c r h hb rfl hr
  exact ⟨K, subset_rfl, x.refresh h hb hr⟩

end

end Reader

lemma World.Sealed.start (hx : m.state ∅ x) : Sealed m ∅ { state := x } where
  heap := ⟨by simp, by simp, by simp, by simp⟩
  state := hx
  effects hb := by simp [effectBody] at hb
  slots := by simp [Registry.empty]

/-- Whenever no effect runs, an effect that looks and writes down what it found has written down
what it would find now. -/
theorem Reader.recorded_is_current (x : Reader sem m ρ)
    (hothers : ∀ {c K}, c ≠ x.code → m.code K c →
      (sem c).Honest m (fun K r => m.reply K c r) K)
    {α : Type} {p : Program S α} {post : Set Ref → α → Prop} (hp : p.Honest m post ∅)
    {s : S.State} (hs : m.state ∅ s) {w : World S}
    (hw : p.Reaches sem sem.caller (fun _ => True) { state := s } w)
    {e : EffectId} (he : w.effectBody e = some x.code) (call : Caller S) :
    ∃ r w', x.look.run call w = some (r, w') ∧ lastNote x.isNote w.log = some (x.note r) := by
  have hstart : x.watch.Inv m ∅ [] [] { state := s } := by
    refine ⟨.start hs, ⟨(by decide : 1 ≤ 32), ?_⟩, ?_⟩
    · intro e hb
      simp [effectBody] at hb
    · intro e c hb
      simp [effectBody] at hb
  obtain ⟨K, -, h⟩ := (x.upkeep hothers).reaches x.refreshes (fun _ _ => id) hw hp hstart
  have hfresh : x.watch.Fresh e w := by
    rcases h.due he rfl with hf | ⟨s, hs, -⟩ | hE
    · exact hf
    · cases hs
    · cases hE
  obtain ⟨r, slots, hfind, -, hnote⟩ := hfresh
  refine ⟨r, w.trackAll slots, ?_, hnote⟩
  rw [(x.looks (h.sealed.effects he)).run h.sealed.heap call, hfind]
  rfl

/-! ## An effect that copies and an effect that looks -/

/-- What the two effects do with an object. -/
inductive Mirror.Code where
  | copy (o : ObjectId)
  | look (o : ObjectId)

/-- Code about objects, without results and without a state. -/
def Mirror : Signature where
  Code := Mirror.Code
  Reply _ := Unit
  State := Unit

namespace Mirror

def look (o : ObjectId) : Program Mirror (Option Value) :=
  .step (.read (.property o "image")) .done

def note : Option Value → LogLine
  | some (.text s) => .note s
  | _ => .note "nothing"

def act : Semantics Mirror
  | .copy o =>
    .step (.read (.property o "original")) fun (v : Option Value) =>
      .step (.write (.set o "image" (v.getD .undefined))) .done
  | .look o => look o >>= fun v => .step (.log [note v]) .done

/-- Two effects on one object, and then a change to what is copied. -/
def story : Program Mirror Unit :=
  .step (.newObject .empty) fun (o : ObjectId) =>
    if o = ⟨0⟩ then
      .step (.spawn (.look o)) fun _ => .step (.spawn (.copy o)) fun _ =>
        .step (.write (.set o "original" (.text "hello"))) .done
    else .done ()

/-- Nothing is written down but by the effect that looks at the first object. -/
def conduct : Conduct Mirror where
  code K
    | .copy o => .object o ∈ K
    | .look o => .object o ∈ K ∧ o = ⟨0⟩
  reply _ _ _ := True
  state _ _ := True
  permits
    | .read _ | .write _ | .newObject _ | .spawn _ => True
    | _ => False
  keeps _ _ _ := True
  born _ _ := ∅
  code_mono {K K' c} hK hc := by
    cases c with
    | copy o => exact hK hc
    | look o => exact ⟨hK hc.1, hc.2⟩
  reply_mono _ _ := trivial
  state_insert _ _ := trivial
  born_notInHeap h := h.elim
  state_keeps _ _ := trivial

def reader : Reader act conduct (Option Value) where
  code := .look ⟨0⟩
  look := look ⟨0⟩
  note := note
  reply _ := ()
  isNote
    | .note _ => true
    | .event _ => false
  code_eq := rfl
  looks hc := .read (Query.known_property hc.1 _) fun v _ => .done v
  note_isNote v := by
    cases v with
    | none => rfl
    | some v => cases v <;> rfl
  event_not_isNote _ := rfl
  log h := h.elim
  call h := h.elim
  within h := h.elim
  clear h := h.elim

lemma honest_copy (ho : .object o ∈ K) : (act (.copy o)).Honest conduct (fun _ _ => True) K := by
  refine .step trivial (Query.known_property ho _) ?_
  intro v K' hK hv
  refine .step trivial ⟨hK ho, ?_⟩ fun _ _ _ _ => .done trivial
  rintro x ⟨⟩
  cases v with
  | none => trivial
  | some x =>
    cases hv with
    | some hx => exact (Value.rel_same.mp hx).2

lemma honest_story : story.Honest conduct (fun _ _ => True) ∅ := by
  refine .step trivial (by simp [Op.Mentions, Table.Known, Table.empty]) ?_
  intro o K _ ho
  split
  · refine .step trivial ⟨ho, ‹_›⟩ fun _ K1 h1 _ => ?_
    refine .step trivial (h1 ho) fun _ K2 h2 _ => ?_
    exact .step trivial ⟨h2 (h1 ho), by rintro x ⟨⟩; trivial⟩ fun _ _ _ _ => .done trivial
  · exact .done trivial

theorem recorded_is_current_story :
    ∃ w, story.Reaches act act.caller (fun _ => True) { state := () } w ∧
      w.effectBody ⟨0⟩ = some (.look ⟨0⟩) ∧
      ∃ v w', (look ⟨0⟩).run (act.caller 1) w = some (v, w') ∧
        lastNote reader.isNote w.log = some (note v) := by
  have hrun : (story.exec act 9 { state := () }).map (fun r => r.2.effectBody ⟨0⟩) =
      some (some (.look ⟨0⟩)) := by
    cbv
  obtain ⟨⟨a, w⟩, hw, hbody⟩ := map_eq_some_iff.mp hrun
  refine ⟨w, .of_run hw, hbody, ?_⟩
  refine reader.recorded_is_current ?_ honest_story trivial (.of_run hw) hbody (act.caller 1)
  intro c K hne hc
  cases c with
  | copy o => exact honest_copy hc
  | look o => exact absurd (congrArg Code.look hc.2) hne

end Mirror

end LiveMarkup
