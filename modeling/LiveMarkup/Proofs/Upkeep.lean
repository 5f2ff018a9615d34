import LiveMarkup.Proofs.Conduct

/-!
# Keeping effects up to date

While slots are triggered and effects run one after the other, an effect may for some time not have
heard of a change. What holds all along is weaker: an effect under watch is fresh, or it is
subscribed to a slot that is still to be triggered, or it is among the effects still to be run. A
`Watch` says what fresh means and which effects are under watch; an `Upkeep` shows for each kind of
step that it keeps this up. For whole runs, however deep effects trigger each other, it then follows
by induction; and where nothing is left to trigger or to run, the effects under watch are fresh.
-/

namespace LiveMarkup

open List Option World

variable {p : Program S α}

/-- What is kept up. -/
structure Watch (S : Signature) where
  Watched : S.Code → Prop
  Quiet : S.Code → Prop
  Pinned : EffectId → Prop
  /-- Lines of the log that tell nothing about the effects under watch. -/
  Silent : LogLine → Prop
  /-- What else holds in all worlds met. -/
  Good : Set Ref → World S → Prop
  /-- The effect has nothing to catch up with. -/
  Fresh : EffectId → World S → Prop

namespace Watch

/-- The second world differs from the first in nothing that matters to the effects under watch:
which effect runs, silent lines of the log, effects that are not under watch, and additional
subscriptions. -/
structure Like (ω : Watch S) (w w' : World S) : Prop where
  heap : w'.heap = w.heap
  state : w'.state = w.state
  maxDepth : w'.maxDepth = w.maxDepth
  log : ∃ lines : List LogLine, w'.log = w.log ++ lines.toArray ∧ ∀ line ∈ lines, ω.Silent line
  body : ∀ {e c}, w'.effectBody e = some c → ω.Watched c → w.effectBody e = some c
  pinned : ∀ {e}, ω.Pinned e → w'.effectBody e = w.effectBody e
  depth : ∀ {e c}, w'.effectBody e = some c → ω.Watched c → w'.effectDepth e ≤ w.effectDepth e
  subscribers : ∀ {e c}, w'.effectBody e = some c → ω.Watched c →
    ∀ {s}, e ∈ w.registry.subscribersOf s → e ∈ w'.registry.subscribersOf s

/-- With the slots `P` still to be triggered and the effects `E` still to be run, everything is as
it should be. -/
structure Inv (ω : Watch S) (m : Conduct S) (K : Set Ref) (P : List Slot) (E : List EffectId)
    (w : World S) : Prop where
  sealed : w.Sealed m K
  good : ω.Good K w
  due : ∀ {e c}, w.effectBody e = some c → ω.Watched c →
    ω.Fresh e w ∨ (∃ s ∈ P, e ∈ w.registry.subscribersOf s) ∨ e ∈ E

end Watch

/-- Each kind of step keeps the effects under watch fresh or due. -/
structure Upkeep (sem : Semantics S) (calls : Nat → Caller S) (m : Conduct S) (ω : Watch S) :
    Prop where
  admits : sem.Admits calls
  /-- Code that is neither under watch nor quiet is honest. -/
  honest : ∀ {c K}, ¬ ω.Watched c → ¬ ω.Quiet c → m.code K c →
    (sem c).Honest m (fun K r => m.reply K c r) K
  /-- Quiet code leaves pending what was pending. -/
  quiet : ∀ {n : Nat} {K : Set Ref} {P : List Slot} {E : List EffectId} {w w' : World S}
    {c : S.Code} {r : S.Reply c}, ω.Quiet c → m.code K c → ω.Inv m K P E w →
    calls n c w = some (r, w') → ω.Inv m K P E w' ∧ m.reply K c r
  /-- Code under watch is run by its effects only, and nothing makes them forget. -/
  call : ∀ {c}, m.permits (.call c) → ¬ ω.Watched c
  within : ∀ {e c}, m.permits (.within e c) → ¬ ω.Watched c
  clear : ∀ {e}, ¬ m.permits (.clearDependencies e)
  dispose : ∀ {e}, m.permits (.dispose e) → ¬ ω.Pinned e
  log : ∀ {lines}, m.permits (.log lines) → ∀ line ∈ lines, ω.Silent line
  event : ∀ e, ω.Silent (.event e)
  good_like : ∀ {K} {w w' : World S}, ω.Like w w' → ω.Good K w → ω.Good K w'
  fresh_like : ∀ {w w' : World S} {e c}, ω.Like w w' → w'.effectBody e = some c → ω.Watched c →
    ω.Fresh e w → ω.Fresh e w'
  /-- New containers are none of those that effects depend on. -/
  grow : ∀ {K K' : Set Ref} {w : World S} {h : Heap}, w.Sealed m K → K ⊆ K' →
    w.heap.Extends h → (∀ s : Slot, w.heap.Holds s.container.ref → w.heap.Unchanged h s) →
    ω.Good K w → ω.Good K' { w with heap := h } ∧
    ∀ {e c}, w.effectBody e = some c → ω.Watched c → ω.Fresh e w →
      ω.Fresh e { w with heap := h }
  /-- A change to a container leaves an effect fresh, or it is subscribed to what changed. -/
  change : ∀ {K : Set Ref} {w : World S} {u : Update}, w.Sealed m K → u.Known K → ω.Good K w →
    ω.Good K { w with heap := (u.apply w.heap).2.1 } ∧
    ∀ {e c}, w.effectBody e = some c → ω.Watched c → ω.Fresh e w →
      ω.Fresh e { w with heap := (u.apply w.heap).2.1 } ∨
        ∃ s ∈ (u.apply w.heap).2.2, e ∈ w.registry.subscribersOf s
  modify : ∀ {K K' : Set Ref} {w : World S} {y : S.State}, w.Sealed m K → m.keeps K w.state y →
    K ⊆ K' → m.born w.state y ⊆ K' → ω.Good K w → ω.Good K' { w with state := y } ∧
    ∀ {e c}, w.effectBody e = some c → ω.Watched c → ω.Fresh e w → ω.Fresh e { w with state := y }
  limit : ∀ {K : Set Ref} {w : World S} {n : Nat}, m.permits (.setMaxDepth n) → ω.Good K w →
    ω.Good K { w with maxDepth := max n 1 } ∧ ∀ {e}, ω.Fresh e w →
      ω.Fresh e { w with maxDepth := max n 1 }
  spawn : ∀ {K : Set Ref} {w : World S} {c : S.Code}, m.permits (.spawn c) → ω.Good K w →
    ω.Good K (w.newEffect c).2 ∧ ∀ {e c'}, w.effectBody e = some c' → ω.Watched c' →
      ω.Fresh e w → ω.Fresh e (w.newEffect c).2
  /-- Effects under watch are never refused. -/
  room : ∀ {K : Set Ref} {w : World S} {e c}, ω.Good K w → w.effectBody e = some c →
    ω.Watched c → w.effectDepth e < w.maxDepth

/-- A caller that keeps everything as it should be. -/
structure Watch.Behaves (ω : Watch S) (m : Conduct S) (call : Caller S) : Prop where
  /-- Code that is not under watch leaves pending what was pending. -/
  calls : ∀ {K P E} {w w' : World S} {c : S.Code} {r : S.Reply c}, ¬ ω.Watched c → m.code K c →
    ω.Inv m K P E w → call c w = some (r, w') →
    ∃ K', K ⊆ K' ∧ ω.Inv m K' P E w' ∧ m.reply K' c r
  /-- Code under watch brings its effect up to date. -/
  refreshes : ∀ {K P E} {w w' : World S} {e : EffectId} {c : S.Code} {r : S.Reply c},
    ω.Inv m K P (e :: E) w → w.effectBody e = some c → ω.Watched c →
    call c (w.enter e) = some (r, w') → ∃ K', K ⊆ K' ∧ ω.Inv m K' P E (w'.leave e w.active)

/-- A run of an effect under watch brings it up to date, provided that other code behaves. -/
def Watch.Refreshes (ω : Watch S) (sem : Semantics S) (calls : Nat → Caller S) (m : Conduct S) :
    Prop :=
  ∀ {n : Nat}, ω.Behaves m (calls n) → ∀ {K : Set Ref} {P : List Slot} {E : List EffectId}
    {w w' : World S} {e : EffectId} {c : S.Code} {r : S.Reply c}, ω.Inv m K P (e :: E) w →
    w.effectBody e = some c → ω.Watched c → (sem c).run (calls n) (w.enter e) = some (r, w') →
    ∃ K', K ⊆ K' ∧ ω.Inv m K' P E (w'.leave e w.active)

namespace Watch

variable {ω : Watch S}

namespace Like

lemma of_eq (hheap : w'.heap = w.heap) (hstate : w'.state = w.state)
    (hmax : w'.maxDepth = w.maxDepth) (hlog : w'.log = w.log) (heffects : w'.effects = w.effects)
    (hsubs : ∀ {e s}, e ∈ w.registry.subscribersOf s → e ∈ w'.registry.subscribersOf s) :
    ω.Like w w' where
  heap := hheap
  state := hstate
  maxDepth := hmax
  log := ⟨[], by simp [hlog], by simp⟩
  body hb _ := by rwa [effectBody_congr heffects] at hb
  pinned _ := effectBody_congr heffects _
  depth _ _ := by rw [effectDepth_congr heffects]
  subscribers _ _ _ h := hsubs h

lemma write (hlines : ∀ line ∈ lines, ω.Silent line) :
    ω.Like w (w.write lines) where
  heap := rfl
  state := rfl
  maxDepth := rfl
  log := ⟨lines, by simp [World.write], hlines⟩
  body hb _ := hb
  pinned _ := rfl
  depth _ _ := le_rfl
  subscribers _ _ _ h := h

lemma dispose (hpin : ¬ ω.Pinned e) : ω.Like w (w.dispose e) := by
  rw [World.dispose]
  split
  case h_1 => exact .of_eq rfl rfl rfl rfl rfl id
  case h_2 hb =>
    have hw : w.dispose e = { w with
        registry := w.registry.clearDependencies e
        effects := w.effects.modify e.index fun c => { c with body := none } } := by
      rw [World.dispose, hb]
    rw [← hw]
    have hne : ∀ {e' c}, (w.dispose e).effectBody e' = some c →
        e' ≠ e ∧ w.effectBody e' = some c := by
      intro e' c hb'
      rw [effectBody_dispose] at hb'
      split at hb'
      · cases hb'
      · exact ⟨‹_›, hb'⟩
    refine ⟨by rw [hw], by rw [hw], by rw [hw], ⟨[], by simp [hw], by simp⟩, ?_, ?_, ?_, ?_⟩
    · intro e' c hb' _
      exact (hne hb').2
    · intro e' hpin'
      rw [effectBody_dispose, if_neg]
      rintro rfl
      exact hpin hpin'
    · intro e' c _ _
      rw [effectDepth_dispose]
    · intro e' c hb' _ s hs
      rw [hw]
      exact Registry.mem_subscribersOf_clearDependencies (hne hb').1 hs

lemma enter (hevent : ω.Silent (.event .effectReentered))
    (hb : w.effectBody e = some c) (hc : ¬ ω.Watched c) : ω.Like w (w.enter e) := by
  have hbody : ∀ {e' c'}, (w.enter e).effectBody e' = some c' → ω.Watched c' →
      e' ≠ e ∧ w.effectBody e' = some c' := by
    intro e' c' hb' hc'
    rw [effectBody_congr (effects_enter w e), effectBody_modifyDepth] at hb'
    refine ⟨?_, hb'⟩
    rintro rfl
    rw [hb] at hb'
    cases hb'
    exact hc hc'
  refine ⟨heap_enter w e, state_enter w e, maxDepth_enter w e, ?_, ?_, ?_, ?_, ?_⟩
  · by_cases hr : 1 < w.effectDepth e + 1
    · exact ⟨[.event .effectReentered], by simp [World.enter, hr, World.write, World.modifyDepth],
        by simpa using hevent⟩
    · exact ⟨[], by simp [World.enter, hr, World.modifyDepth], by simp⟩
  · intro e' c' hb' hc'
    exact (hbody hb' hc').2
  · intro e' _
    rw [effectBody_congr (effects_enter w e), effectBody_modifyDepth]
  · intro e' c' hb' hc'
    rw [effectDepth_congr (effects_enter w e), effectDepth_modifyDepth_of_ne _ _ (hbody hb' hc').1]
  · intro e' c' hb' hc' s hs
    rw [registry_enter]
    exact Registry.mem_subscribersOf_clearDependencies (hbody hb' hc').1 hs

lemma leave (e : EffectId) (before : Option EffectId) : ω.Like w (w.leave e before) := by
  refine ⟨rfl, rfl, rfl, ⟨[], by simp [World.leave, World.modifyDepth], by simp⟩, ?_, ?_, ?_, ?_⟩
  · intro e' c hb _
    rwa [World.leave, World.effectBody_modifyDepth] at hb
  · intro e' _
    exact effectBody_modifyDepth _ e e' _
  · intro e' c hb _
    by_cases he : e' = e
    · subst he
      rw [World.leave, World.effectBody_modifyDepth] at hb
      have hlt : e'.index < ({ w with active := before } : World S).effects.size :=
        index_lt_of_effectBody hb
      rw [World.leave, World.effectDepth_modifyDepth_self _ _ hlt]
      exact Nat.sub_le _ _
    · rw [World.leave, World.effectDepth_modifyDepth_of_ne _ _ he]
      exact le_rfl
  · intro e' c _ _ s hs
    exact hs

lemma active (e : Option EffectId) : ω.Like w { w with active := e } :=
  .of_eq rfl rfl rfl rfl rfl id

lemma track (s : Slot) : ω.Like w (w.track s) := by
  rw [World.track]
  split
  · exact .of_eq rfl rfl rfl rfl rfl id
  · exact .of_eq rfl rfl rfl rfl rfl fun h => Registry.mem_subscribersOf_track.mpr (.inl h)

lemma trans (h1 : ω.Like w w1) (h2 : ω.Like w1 w2) : ω.Like w w2 := by
  refine ⟨h2.heap.trans h1.heap, h2.state.trans h1.state, h2.maxDepth.trans h1.maxDepth, ?_,
    fun hb hc => h1.body (h2.body hb hc) hc,
    fun hp => (h2.pinned hp).trans (h1.pinned hp),
    fun hb hc => (h2.depth hb hc).trans (h1.depth (h2.body hb hc) hc),
    fun hb hc _ hs => h2.subscribers hb hc (h1.subscribers (h2.body hb hc) hc hs)⟩
  obtain ⟨lines1, hlog1, hsilent1⟩ := h1.log
  obtain ⟨lines2, hlog2, hsilent2⟩ := h2.log
  refine ⟨lines1 ++ lines2, by simp [hlog2, hlog1], ?_⟩
  intro line hline
  exact (mem_append.mp hline).elim (hsilent1 line) (hsilent2 line)

lemma trackAll (slots : List Slot) : ω.Like w (w.trackAll slots) := by
  induction slots generalizing w with
  | nil => exact .of_eq rfl rfl rfl rfl rfl id
  | cons s rest ih => exact (Like.track s).trans ih

end Like

namespace Inv

/-- A step after which the effects under watch are the same, as fresh as before, and subscribed to
what they were. -/
lemma step (h : ω.Inv m K P E w) (hsealed : w1.Sealed m K') (hgood : ω.Good K' w1)
    (hbody : ∀ {e c}, w1.effectBody e = some c → ω.Watched c → w.effectBody e = some c)
    (hfresh : ∀ {e c}, w1.effectBody e = some c → ω.Watched c → ω.Fresh e w → ω.Fresh e w1)
    (hsubs : ∀ {e c}, w1.effectBody e = some c → ω.Watched c →
      ∀ {s}, e ∈ w.registry.subscribersOf s → e ∈ w1.registry.subscribersOf s) :
    ω.Inv m K' P E w1 := by
  refine ⟨hsealed, hgood, ?_⟩
  intro e c hb hc
  rcases h.due (hbody hb hc) hc with hf | ⟨s, hs, hmem⟩ | hE
  · exact .inl (hfresh hb hc hf)
  · exact .inr (.inl ⟨s, hs, hsubs hb hc hmem⟩)
  · exact .inr (.inr hE)

lemma like (hu : Upkeep sem calls m ω) (h : ω.Inv m K P E w) (hl : ω.Like w w1)
    (hsealed : w1.Sealed m K) : ω.Inv m K P E w1 :=
  h.step hsealed (hu.good_like hl h.good) hl.body (hu.fresh_like hl) hl.subscribers

lemma weaken (h : ω.Inv m K P E w) (hP : P ⊆ P') (hE : E ⊆ E') : ω.Inv m K P' E' w := by
  refine ⟨h.sealed, h.good, ?_⟩
  intro e c hb hc
  rcases h.due hb hc with hf | ⟨s, hs, hmem⟩ | he
  · exact .inl hf
  · exact .inr (.inl ⟨s, hP hs, hmem⟩)
  · exact .inr (.inr (hE he))

lemma trigger (h : ω.Inv m K (s :: P) E w) :
    ω.Inv m K P (w.registry.subscribersOf s ++ E) w := by
  refine ⟨h.sealed, h.good, ?_⟩
  intro e c hb hc
  rcases h.due hb hc with hf | ⟨t, ht, hmem⟩ | he
  · exact .inl hf
  · rcases mem_cons.mp ht with rfl | ht
    · exact .inr (.inr (mem_append.mpr (.inl hmem)))
    · exact .inr (.inl ⟨t, ht, hmem⟩)
  · exact .inr (.inr (mem_append.mpr (.inr he)))

lemma drop (h : ω.Inv m K P (e :: E) w)
    (he : ∀ c, w.effectBody e = some c → ¬ ω.Watched c) : ω.Inv m K P E w := by
  refine ⟨h.sealed, h.good, ?_⟩
  intro e' c hb hc
  rcases h.due hb hc with hf | hs | hmem
  · exact .inl hf
  · exact .inr (.inl hs)
  · rcases mem_cons.mp hmem with rfl | hmem
    · exact absurd hc (he c hb)
    · exact .inr (.inr hmem)

lemma change (hu : Upkeep sem calls m ω) (h : ω.Inv m K P E w) {u : Update} (hk : u.Known K) :
    ω.Inv m K ((u.apply w.heap).2.2 ++ P) E { w with heap := (u.apply w.heap).2.1 } := by
  obtain ⟨hgood, hfresh⟩ := hu.change h.sealed hk h.good
  have he := u.extends_apply w.heap
  refine ⟨⟨h.sealed.heap.apply hk, h.sealed.state, h.sealed.effects,
    fun p hp => he.holds (h.sealed.slots p hp)⟩, hgood, ?_⟩
  intro e c hb hc
  rcases h.due hb hc with hf | ⟨s, hs, hmem⟩ | hE
  · rcases hfresh hb hc hf with hf | ⟨s, hs, hmem⟩
    · exact .inl hf
    · exact .inr (.inl ⟨s, mem_append.mpr (.inl hs), hmem⟩)
  · exact .inr (.inl ⟨s, mem_append.mpr (.inr hs), hmem⟩)
  · exact .inr (.inr hE)

lemma newEffect (hu : Upkeep sem calls m ω) (h : ω.Inv m K P E w) (hp : m.permits (.spawn c))
    (hc : m.code K c) : ω.Inv m K P ((w.newEffect c).1 :: E) (w.newEffect c).2 := by
  obtain ⟨hgood, hfresh⟩ := hu.spawn hp h.good
  refine ⟨⟨h.sealed.heap, h.sealed.state, ?_, h.sealed.slots⟩, hgood, ?_⟩
  · intro e c' hb
    rw [effectBody_newEffect] at hb
    split at hb
    · cases hb
      exact hc
    · exact h.sealed.effects hb
  · intro e c' hb hc'
    rw [effectBody_newEffect] at hb
    split at hb
    · rename_i hnew
      obtain rfl : e = (w.newEffect c).1 := by
        cases e
        exact congrArg EffectId.mk hnew
      exact .inr (.inr mem_cons_self)
    · rcases h.due hb hc' with hf | hs | hE
      · exact .inl (hfresh hb hc' hf)
      · exact .inr (.inl hs)
      · exact .inr (.inr (mem_cons_of_mem _ hE))

end Inv

end Watch

/-! ## Whole runs -/

namespace Upkeep

variable {ω : Watch S}
variable {call : Caller S}
variable {w : World S}

section

variable (hu : Upkeep sem calls m ω)
include hu

lemma runEffect (hcall : ω.Behaves m call) (h : ω.Inv m K P (e :: E) w)
    (hr : runEffect call e w = some w') : ∃ K', K ⊆ K' ∧ ω.Inv m K' P E w' := by
  rcases runEffect_cases hr with ⟨hb, rfl⟩ | ⟨c, hb, hd, rfl⟩ | ⟨c, r, w1, hb, hd, hc, rfl⟩
  · refine ⟨K, subset_rfl, h.drop ?_⟩
    intro c hb'
    rw [hb] at hb'
    cases hb'
  · have hw : ¬ ω.Watched c := by
      intro hw
      have hroom := hu.room h.good hb hw
      omega
    have hdrop : ω.Inv m K P E w := h.drop fun c' hb' => by
      rw [hb] at hb'
      cases hb'
      exact hw
    refine ⟨K, subset_rfl, hdrop.like hu (.write (by simpa using hu.event _)) ?_⟩
    exact h.sealed.congr rfl rfl id fun p hp => ⟨p, hp, rfl⟩
  · by_cases hw : ω.Watched c
    · exact hcall.refreshes h hb hw hc
    · have hdrop : ω.Inv m K P E w := h.drop fun c' hb' => by
        rw [hb] at hb'
        cases hb'
        exact hw
      have hin : ω.Inv m K P E (w.enter e) :=
        hdrop.like hu (.enter (hu.event _) hb hw) (h.sealed.enter e)
      obtain ⟨K', hK, hout, -⟩ := hcall.calls hw (h.sealed.effects hb) hin hc
      exact ⟨K', hK, hout.like hu (.leave e w.active) (hout.sealed.leave e w.active)⟩

lemma runEffects (hcall : ω.Behaves m call) (h : ω.Inv m K P (es ++ E) w)
    (hr : runEffects call es w = some w') : ∃ K', K ⊆ K' ∧ ω.Inv m K' P E w' := by
  induction es generalizing K w with
  | nil =>
    cases hr
    exact ⟨K, subset_rfl, h⟩
  | cons e rest ih =>
    rw [runEffects] at hr
    split at hr
    · cases hr
    · obtain ⟨K1, hK1, h1⟩ := hu.runEffect hcall h ‹_›
      obtain ⟨K2, hK2, h2⟩ := ih h1 hr
      exact ⟨K2, hK1.trans hK2, h2⟩

lemma triggerAll (hcall : ω.Behaves m call) (h : ω.Inv m K (slots ++ P) E w)
    (hr : triggerAll call slots w = some w') : ∃ K', K ⊆ K' ∧ ω.Inv m K' P E w' := by
  induction slots generalizing K w with
  | nil =>
    cases hr
    exact ⟨K, subset_rfl, h⟩
  | cons s rest ih =>
    rw [triggerAll] at hr
    split at hr
    · cases hr
    · obtain ⟨K1, hK1, h1⟩ := hu.runEffects hcall h.trigger ‹_›
      obtain ⟨K2, hK2, h2⟩ := ih h1 hr
      exact ⟨K2, hK1.trans hK2, h2⟩

lemma good_mono (h : ω.Inv m K P E w) (hK : K ⊆ K') : ω.Good K' w :=
  (hu.grow h.sealed hK (.refl w.heap) (fun _ _ => .of_eq (fun _ _ => rfl) fun _ _ => rfl) h.good).1

lemma like (h : ω.Inv m K P E w) (hK : K ⊆ K') (hsealed : w'.Sealed m K') (hl : ω.Like w w') :
    ω.Inv m K' P E w' :=
  h.step hsealed (hu.good_like hl (hu.good_mono h hK)) hl.body (hu.fresh_like hl) hl.subscribers

lemma extend {heap : Heap} (h : ω.Inv m K P E w) (hK : K ⊆ K')
    (hsealed : { w with heap := heap }.Sealed m K') (he : w.heap.Extends heap)
    (hsame : ∀ {s : Slot}, w.heap.Holds s.container.ref → w.heap.Unchanged heap s) :
    ω.Inv m K' P E { w with heap := heap } := by
  obtain ⟨hgood, hfresh⟩ := hu.grow h.sealed hK he (fun _ => hsame) h.good
  exact h.step hsealed hgood (fun hb _ => hb) hfresh fun _ _ _ hs => hs

end

section

variable (hu : Upkeep sem calls m ω)
include hu

lemma perform_inert (h : ω.Inv m K P E w) (hp : m.permits op) (hm : op.Mentions m K)
    (hr : op.perform call w = some (r, w')) (hi : op.IsInert) :
    ∃ K', K ⊆ K' ∧ ω.Inv m K' P E w' ∧ op.Reveals m K' r := by
  obtain ⟨K', hK, hsealed, hreveals⟩ := h.sealed.perform hi hm hr
  refine ⟨K', hK, ?_, hreveals⟩
  cases op with
  | read q =>
    obtain ⟨⟨a, slots⟩, -, ⟨⟩⟩ := map_eq_some_iff.mp hr
    exact hu.like h hK hsealed (.trackAll slots)
  | peek q =>
    obtain ⟨⟨a, slots⟩, -, ⟨⟩⟩ := map_eq_some_iff.mp hr
    exact hu.like h hK hsealed (.of_eq rfl rfl rfl rfl rfl id)
  | newObject fields =>
    cases hr
    exact hu.extend h hK hsealed (w.heap.extends_newObject fields)
      (w.heap.unchanged_newObject fields)
  | newList items =>
    cases hr
    exact hu.extend h hK hsealed (w.heap.extends_newList items) (w.heap.unchanged_newList items)
  | newHost x =>
    cases hr
    exact hu.extend h hK hsealed (w.heap.extends_newHost x)
      fun _ => .of_eq (fun _ _ => rfl) fun _ _ => rfl
  | dispose e =>
    cases hr
    exact hu.like h hK hsealed (.dispose (hu.dispose hp))
  | track s =>
    cases hr
    exact hu.like h hK hsealed (.track s)
  | log lines =>
    cases hr
    exact hu.like h hK hsealed (.write (hu.log hp))
  | modify f =>
    cases hr
    obtain ⟨hgood, hfresh⟩ := hu.modify h.sealed (hm _ h.sealed.state) hK hreveals.2 h.good
    exact h.step hsealed hgood (fun hb _ => hb) hfresh fun _ _ _ => id
  | setMaxDepth n =>
    cases hr
    obtain ⟨hgood, hfresh⟩ := hu.limit hp (hu.good_mono h hK)
    exact h.step hsealed hgood (fun hb _ => hb) (fun _ _ => hfresh) fun _ _ _ => id
  | clearDependencies e => exact absurd hp hu.clear
  | write | call | within | spawn | rerun | trigger => exact hi.elim
  | _ =>
    cases hr
    exact hu.like h hK hsealed (.of_eq rfl rfl rfl rfl rfl id)

lemma perform (hcall : ω.Behaves m call) (h : ω.Inv m K P E w) (hp : m.permits op)
    (hm : op.Mentions m K) (hr : op.perform call w = some (r, w')) :
    ∃ K', K ⊆ K' ∧ ω.Inv m K' P E w' ∧ op.Reveals m K' r := by
  cases op with
  | write u =>
    obtain ⟨w1, ht, ⟨⟩⟩ := map_eq_some_iff.mp hr
    obtain ⟨K', hK, h'⟩ := hu.triggerAll hcall (h.change hu hm) ht
    exact ⟨K', hK, h', (h.sealed.heap.result hm).mono hK⟩
  | call c => exact hcall.calls (hu.call hp) hm h hr
  | within e c =>
    have hin : ω.Inv m K P E { w with active := e } :=
      h.like hu (.active e) (h.sealed.congr rfl rfl id fun p hp => ⟨p, hp, rfl⟩)
    rw [Op.perform, runWithin] at hr
    split at hr <;> cases hr
    · obtain ⟨K', hK, hout, hreply⟩ := hcall.calls (hu.within hp) hm hin ‹_›
      exact ⟨K', hK, hout.like hu (.active w.active)
        (hout.sealed.congr rfl rfl id fun p hp => ⟨p, hp, rfl⟩), hreply⟩
  | spawn c =>
    obtain ⟨w1, he, ⟨⟩⟩ := map_eq_some_iff.mp hr
    obtain ⟨K', hK, h'⟩ := hu.runEffect hcall (h.newEffect hu hp hm) he
    exact ⟨K', hK, h', trivial⟩
  | rerun e =>
    obtain ⟨w1, he, ⟨⟩⟩ := map_eq_some_iff.mp hr
    obtain ⟨K', hK, h'⟩ := hu.runEffect hcall (h.weaken (Subset.refl P) (subset_cons_self e E)) he
    exact ⟨K', hK, h', trivial⟩
  | trigger s =>
    obtain ⟨w1, ht, ⟨⟩⟩ := map_eq_some_iff.mp hr
    obtain ⟨K', hK, h'⟩ := hu.runEffects hcall
      (h.weaken (Subset.refl P) (subset_append_right _ E)) ht
    exact ⟨K', hK, h', trivial⟩
  | _ => exact hu.perform_inert h hp hm hr trivial

lemma run (hcall : ω.Behaves m call) (hp : p.Honest m post K)
    (h : ω.Inv m K P E w) (hr : p.run call w = some (a, w')) :
    ∃ K', K ⊆ K' ∧ ω.Inv m K' P E w' ∧ post K' a := by
  induction hp generalizing w with
  | done ha =>
    cases hr
    exact ⟨_, subset_rfl, h, ha⟩
  | step hperm hm _ ih =>
    obtain ⟨r, w1, hop, hrest⟩ := Program.of_run_step hr
    obtain ⟨K1, hK1, h1, hreveals⟩ := hu.perform hcall h hperm hm hop
    obtain ⟨K2, hK2, h2, ha⟩ := ih r K1 hK1 hreveals h1 hrest
    exact ⟨K2, hK1.trans hK2, h2, ha⟩

lemma behaves (hr : ω.Refreshes sem calls m) (n : Nat) : ω.Behaves m (calls n) := by
  induction n with
  | zero =>
    refine ⟨?_, ?_⟩
    · intro K P E w w' c r _ _ _ hrun
      rw [hu.admits.zero] at hrun
      cases hrun
    · intro K P E w w' e c r _ _ _ hrun
      rw [hu.admits.zero] at hrun
      cases hrun
  | succ n ih =>
    refine ⟨?_, ?_⟩
    · intro K P E w w' c r hw hc h hrun
      by_cases hq : ω.Quiet c
      · exact ⟨K, subset_rfl, hu.quiet hq hc h hrun⟩
      · exact hu.run ih (hu.honest hw hq hc) h (hu.admits.succ hrun)
    · intro K P E w w' e c r h hb hw hrun
      exact hr ih h hb hw (hu.admits.succ hrun)

end

end Upkeep

/-! ## Moments at which no effect runs -/

/-- Running the program from `w` comes through `w'` outside of every run of an effect: at its
start, between two of its operations or at its end, and likewise inside the code that it calls, if
that is open to view. -/
inductive Program.Reaches (sem : Semantics S) (calls : Nat → Caller S) (opens : S.Code → Prop) :
    {α : Type} → Program S α → World S → World S → Prop
  | here {α : Type} (p : Program S α) (w : World S) : Reaches sem calls opens p w w
  | next {α : Type} {op : Op S} {next : op.Reply → Program S α} {bound : Nat} {r : op.Reply}
      {w w1 w' : World S} (hop : op.perform (calls bound) w = some (r, w1))
      (rest : Reaches sem calls opens (next r) w1 w') : Reaches sem calls opens (step op next) w w'
  | call {α : Type} {next : S.Reply c → Program S α} (hc : opens c)
      (code : Reaches sem calls opens (sem c) w w') :
      Reaches sem calls opens (step (.call c) next) w w'
  | within {α : Type} {e : Option EffectId} {c : S.Code} {next : S.Reply c → Program S α}
      {w w' : World S} (hc : opens c)
      (code : Reaches sem calls opens (sem c) { w with active := e } w') :
      Reaches sem calls opens (step (.within e c) next) w w'

lemma Program.Reaches.of_run (hr : p.run (calls bound) w = some (a, w')) :
    p.Reaches sem calls opens w w' := by
  induction p generalizing w with
  | done b =>
    cases hr
    exact .here _ _
  | step op next ih =>
    obtain ⟨r, w1, hop, hrest⟩ := Program.of_run_step hr
    exact .next hop (ih r hrest)

/-- Whenever no effect runs, nothing is pending. -/
lemma Upkeep.reaches (hu : Upkeep sem calls m ω) (hr : ω.Refreshes sem calls m)
    (hopens : ∀ c, opens c → ¬ ω.Quiet c) (hreach : p.Reaches sem calls opens w w')
    (hp : p.Honest m post K) (h : ω.Inv m K [] [] w) : ∃ K', K ⊆ K' ∧ ω.Inv m K' [] [] w' := by
  induction hreach generalizing K with
  | here p w => exact ⟨K, subset_rfl, h⟩
  | @next α op next bound r w w1 w' hop _ ih =>
    cases hp with
    | step hperm hm hrest =>
      obtain ⟨K1, hK1, h1, hreveals⟩ := hu.perform (hu.behaves hr bound) h hperm hm hop
      obtain ⟨K2, hK2, h2⟩ := ih (hrest r K1 hK1 hreveals) h1
      exact ⟨K2, hK1.trans hK2, h2⟩
  | call hc _ ih =>
    cases hp with
    | step hperm hm _ => exact ih (hu.honest (hu.call hperm) (hopens _ hc) hm) h
  | @within α e c next w w' hc _ ih =>
    cases hp with
    | step hperm hm _ =>
      exact ih (hu.honest (hu.within hperm) (hopens _ hc) hm)
        (h.like hu (.active e) (h.sealed.congr rfl rfl id fun p hp => ⟨p, hp, rfl⟩))

end LiveMarkup
