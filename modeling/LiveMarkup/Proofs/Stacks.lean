import LiveMarkup.Proofs.Lifecycle

/-!
# What is on a stack

Templates add to stacks and show what is on them. There is one table of stacks for the whole view
layer, and rendering an instance at top level begins with emptying it. So what a stack shows is what
anybody has added to it since it was last emptied, in the order in which it was added,
`View.stack_after`.

If another rendering begins at top level meanwhile, as it may when a template calls a method that
writes what a mounted instance has read, then what was added before is lost. `Notices` is such a
case.
-/

namespace LiveMarkup

open View Moment

variable {C : Client} {α β : Type}

lemma Moment.Step.state_cases {m m' : C.Moment} (h : m.Step sem m') :
    (∃ f, m.op? = some (.modify f) ∧ m'.world.state = f m.world.state) ∨
      (∀ f, m.op? ≠ some (.modify f)) ∧ m'.world.state = m.world.state := by
  have hshift := h.shift
  generalize m'.world = w' at hshift ⊢
  cases hshift with
  | disposes hop =>
    refine .inr ⟨fun f hf => ?_, World.state_dispose _ _⟩
    cases hop.symm.trans hf
  | clears hop =>
    refine .inr ⟨fun f hf => ?_, rfl⟩
    cases hop.symm.trans hf
  | modifies hop => exact .inl ⟨_, hop, rfl⟩
  | records hop hd hc hm hrec =>
    refine .inr ⟨fun f hf => ?_, hrec.state⟩
    cases hop.symm.trans hf
    exact hm f rfl
  | machine hop hshift =>
    refine .inr ⟨fun f hf => hop _ hf trivial, ?_⟩
    cases hshift with
    | enter hb => exact World.state_enter _ _
    | _ => rfl

lemma Moment.modify_inj {m : C.Moment} (hf : m.op? = some (.modify f))
    (hg : m.op? = some (.modify g)) : f = g := by
  cases hf.symm.trans hg
  rfl

/-! ## Stacks of a state -/

def ViewState.stack (s : ViewState C) (name : String) : String :=
  (s.pushed.get? name).getD ""

namespace View

@[simp]
lemma stack_emptied (s : ViewState C) (name : String) : (emptied s).stack name = "" := rfl

lemma get?_pushing (name content : String) (s : ViewState C) (name' : String) :
    (pushing name content s).pushed.get? name' =
      if name' = name then some (s.stack name ++ content) else s.pushed.get? name' :=
  Table.get?_insert _ _ _ _

lemma stack_pushing_self (name content : String) (s : ViewState C) :
    (pushing name content s).stack name = s.stack name ++ content := by
  rw [ViewState.stack, get?_pushing, if_pos rfl, Option.getD_some]

lemma stack_pushing_of_ne (h : name' ≠ name) (content : String) (s : ViewState C) :
    (pushing name content s).stack name' = s.stack name' := by
  rw [ViewState.stack, get?_pushing, if_neg h]
  rfl

section

variable {f : ViewState C → ViewState C} (hf : ∀ s, (f s).pushed = s.pushed) (s : ViewState C)
include hf s

lemma not_keeps_pushing (name content : String) : f ≠ pushing name content := by
  rintro rfl
  have hget := get?_pushing name content (emptied s) name
  rw [hf, if_pos rfl] at hget
  cases hget

lemma not_keeps_emptied : f ≠ emptied := by
  rintro rfl
  have hget := get?_pushing "" "" s ""
  rw [← hf, if_pos rfl] at hget
  cases hget

end

lemma pushing_ne_emptied (s : ViewState C) (name content : String) :
    pushing (C := C) name content ≠ emptied := by
  intro h
  have hget := get?_pushing name content s name
  rw [h, if_pos rfl] at hget
  cases hget

lemma pushing_inj (s : ViewState C) (h : pushing (C := C) name content = pushing name' content') :
    name = name' ∧ content = content' := by
  have hget := get?_pushing name content (emptied s) name
  rw [h, get?_pushing, if_pos rfl, stack_emptied, stack_emptied] at hget
  split at hget
  · rename_i hname
    have heq := Option.some.inj hget
    rw [String.empty_append, String.empty_append] at heq
    exact ⟨hname, heq.symm⟩
  · cases hget

/-! ## Stacks in a run -/

variable (b : Behaviour C) (m0 : C.Moment)

/-- Something is added to a stack in the step after the `j`-th moment of a run. -/
def Pushes (name content : String) (j : Nat) : Prop :=
  ∃ m, (semantics b).after m0 j = some m ∧ m.op? = some (.modify (pushing name content))

/-- All stacks are emptied in the step after the `j`-th moment of a run. -/
def Empties (j : Nat) : Prop :=
  ∃ m, (semantics b).after m0 j = some m ∧ m.op? = some (.modify emptied)

/-- What has been added to a stack after the `l`-th moment and before the `n`-th one, in order, and
each together with the moment at which it was. -/
structure Pile (name : String) (l n : Nat) (added : List (Nat × String)) : Prop where
  sorted : added.Pairwise fun x y => x.1 < y.1
  mem : ∀ j content, (j, content) ∈ added ↔ l < j ∧ j < n ∧ Pushes b m0 name content j

/-- What is on a stack at the `n`-th moment of a run, in the state `s`, has been added since the
stacks were emptied at the `l`-th moment, and they have not been emptied since. -/
structure Collected (name : String) (l n : Nat) (added : List (Nat × String)) (s : ViewState C) :
    Prop where
  emptied : Empties b m0 l
  before : l < n
  last : ∀ j, l < j → j < n → ¬ Empties b m0 j
  pile : Pile b m0 name l n added
  text : s.stack name = String.join (added.map Prod.snd)

variable {b m0} {name : String} {l n : Nat}

lemma Pushes.unique {content' : String} (h : Pushes b m0 name content j)
    (h' : Pushes b m0 name content' j) : content = content' := by
  obtain ⟨m, hm, hop⟩ := h
  obtain ⟨m', hm', hop'⟩ := h'
  cases hm.symm.trans hm'
  exact (pushing_inj m.world.state (modify_inj hop hop')).2

namespace Pile

lemma start (name : String) (l : Nat) : Pile b m0 name l (l + 1) [] := by
  refine ⟨.nil, fun j content => ⟨nofun, ?_⟩⟩
  rintro ⟨hl, hn, -⟩
  omega

lemma skip (h : Pile b m0 name l n added) (hn : ∀ content, ¬ Pushes b m0 name content n) :
    Pile b m0 name l (n + 1) added := by
  refine ⟨h.sorted, fun j content => (h.mem j content).trans ⟨?_, ?_⟩⟩
  · rintro ⟨hl, hj, hpush⟩
    exact ⟨hl, Nat.lt_succ_of_lt hj, hpush⟩
  · rintro ⟨hl, hj, hpush⟩
    have hne : j ≠ n := by
      rintro rfl
      exact hn content hpush
    exact ⟨hl, by omega, hpush⟩

lemma add (h : Pile b m0 name l n added) (hl : l < n) (hn : Pushes b m0 name content n) :
    Pile b m0 name l (n + 1) (added ++ [(n, content)]) := by
  constructor
  · refine List.pairwise_append.mpr ⟨h.sorted, List.pairwise_singleton _ _, ?_⟩
    rintro ⟨j, content'⟩ hx y hy
    rw [List.mem_singleton.mp hy]
    exact ((h.mem j content').mp hx).2.1
  · intro j content'
    rw [List.mem_append, List.mem_singleton, h.mem, Prod.mk.injEq]
    constructor
    · rintro (⟨hj, hjn, hpush⟩ | ⟨rfl, rfl⟩)
      · exact ⟨hj, Nat.lt_succ_of_lt hjn, hpush⟩
      · exact ⟨hl, Nat.lt_succ_self _, hn⟩
    · rintro ⟨hj, hjn, hpush⟩
      rcases Nat.lt_succ_iff_lt_or_eq.mp hjn with hlt | rfl
      · exact .inl ⟨hj, hlt, hpush⟩
      · exact .inr ⟨rfl, hpush.unique hn⟩

end Pile

namespace Collected

lemma start (h : Empties b m0 l) (htext : s.stack name = "") :
    Collected b m0 name l (l + 1) [] s where
  emptied := h
  before := l.lt_succ_self
  last j hj hjl := by omega
  pile := .start name l
  text := htext

lemma later (h : Collected b m0 name l n added s) (hn : ¬ Empties b m0 n)
    (hpile : Pile b m0 name l (n + 1) added')
    (htext : s'.stack name = String.join (added'.map Prod.snd)) :
    Collected b m0 name l (n + 1) added' s' where
  emptied := h.emptied
  before := Nat.lt_succ_of_lt h.before
  last j hj hjn := by
    rcases Nat.lt_succ_iff_lt_or_eq.mp hjn with hlt | rfl
    · exact h.last j hj hlt
    · exact hn
  pile := hpile
  text := htext

end Collected

/-- What a step can do to stacks. -/
inductive StackStep (m m' : C.Moment) : Prop
  | keeps (hpush : ∀ name content, m.op? ≠ some (.modify (pushing name content)))
      (hempty : m.op? ≠ some (.modify emptied))
      (h : ∀ name, m'.world.state.stack name = m.world.state.stack name)
  | pushes {name content : String} (hop : m.op? = some (.modify (pushing name content)))
      (h : m'.world.state = pushing name content m.world.state)
  | empties (hop : m.op? = some (.modify emptied)) (h : m'.world.state = emptied m.world.state)

variable {p : View C α}

lemma stackStep_after (hb : b.Abides) (hp : p.Abides) (hm : RunsTo b p c n m)
    (hm' : RunsTo b p c (n + 1) m') : StackStep m m' := by
  obtain ⟨⟨ds, hds⟩, -⟩ := orderly_after hb hp hm
  rcases (Semantics.step_of_after hm hm').state_cases with ⟨f, hop, hstate⟩ | ⟨hno, hstate⟩
  · have hminds : MindsStacks f := by
      cases occurs_of_orderly hds hop with
      | calm h => exact h.2
      | modify h => exact .keeps h
    cases hminds with
    | keeps hf =>
      refine .keeps (fun name content h => ?_) (fun h => ?_) fun name => ?_
      · exact not_keeps_pushing hf m.world.state name content (modify_inj hop h)
      · exact not_keeps_emptied hf m.world.state (modify_inj hop h)
      · rw [ViewState.stack, hstate, hf]
        rfl
    | pushes name content => exact .pushes hop hstate
    | empties => exact .empties hop hstate
  · refine .keeps (fun name content => hno _) (hno _) fun name => ?_
    rw [hstate]

lemma empties_of_renderTop (h : (semantics b).ComesTo m0 (renderTop i) l w) : Empties b m0 l := by
  obtain ⟨β, f, k, hl⟩ := h
  refine ⟨_, hl, ?_⟩
  rfl

/-- One step: what is on a stack since the stacks were last emptied, and when that was. -/
lemma Collected.step (h : Collected b (opening p c) name l n added m.world.state) (hb : b.Abides)
    (hp : p.Abides) (hm : RunsTo b p c n m) (hm' : RunsTo b p c (n + 1) m') :
    ∃ l' added', l ≤ l' ∧ Collected b (opening p c) name l' (n + 1) added' m'.world.state := by
  -- the operation of the step decides which of the events there is at the `n`-th moment
  have not_at : ∀ {op}, m.op? ≠ some op → ¬ ∃ m, RunsTo b p c n m ∧ m.op? = some op := by
    rintro op hne ⟨m1, hm1, hop⟩
    cases hm.symm.trans hm1
    exact hne hop
  cases stackStep_after hb hp hm hm' with
  | keeps hpush hempty hsame =>
    have hpile := h.pile.skip fun content => not_at (hpush name content)
    exact ⟨l, added, le_rfl, h.later (not_at hempty) hpile ((hsame name).trans h.text)⟩
  | @pushes name' content hop hstate =>
    have hempty : ¬ Empties b (opening p c) n := not_at fun hop' =>
      pushing_ne_emptied m.world.state name' content (modify_inj hop hop')
    by_cases hname : name = name'
    · subst hname
      have hpile := h.pile.add h.before ⟨m, hm, hop⟩
      refine ⟨l, added ++ [(n, content)], le_rfl, h.later hempty hpile ?_⟩
      rw [hstate, stack_pushing_self, h.text, List.map_append, String.join_append]
      simp
    · have hpile := h.pile.skip fun content' => not_at fun hop' =>
        hname (pushing_inj m.world.state (modify_inj hop' hop)).1
      refine ⟨l, added, le_rfl, h.later hempty hpile ?_⟩
      rw [hstate, stack_pushing_of_ne hname, h.text]
  | empties hop hstate =>
    refine ⟨n, [], h.before.le, .start ⟨m, hm, hop⟩ ?_⟩
    rw [hstate, stack_emptied]

lemma stack_after (hb : b.Abides) (hp : p.Abides) (hl : Empties b (opening p c) l) (hln : l < n)
    (hm : RunsTo b p c n m) (name : String) :
    ∃ l0 added, l ≤ l0 ∧ Collected b (opening p c) name l0 n added m.world.state := by
  induction n, Nat.succ_le_of_lt hln using Nat.le_induction generalizing m with
  | base =>
    obtain ⟨m1, hm1, hop⟩ := id hl
    refine ⟨l, [], le_rfl, .start hl ?_⟩
    rcases (Semantics.step_of_after hm1 hm).state_cases with ⟨f, hop', hstate⟩ | ⟨hno, -⟩
    · rw [hstate, modify_inj hop' hop]
      rfl
    · exact absurd hop (hno _)
  | succ n hle ih =>
    obtain ⟨m1, hm1, -⟩ := Semantics.after_succ_cases hm
    obtain ⟨l0, added, hl0, hcollected⟩ := ih hle hm1
    obtain ⟨l', added', hl', hcollected'⟩ := hcollected.step hb hp hm1 hm
    exact ⟨l', added', hl0.trans hl', hcollected'⟩

/-- Once an instance has begun to be rendered at top level, whoever asks what is on a stack gets
what was added to it since the stacks were last emptied, in order. They were emptied when the
rendering began or later. So what was added before another rendering began at top level is not among
it, and if the stacks have not been emptied since the first one began, it is all that has been added
since then. -/
theorem stack_yields_pushes_since_emptied (hb : b.Abides) (hp : p.Abides) {i : InstanceId}
    {w₀ w : C.World} {g : String → View C β} {k : C.Pending β}
    (hl : (semantics b).ComesTo (opening p c) (renderTop i) l w₀) (hln : l < n)
    (hn : (semantics b).after (opening p c) n = some (.code (stackText name >>= g) k w)) :
    ∃ l₀ added, l ≤ l₀ ∧ l₀ < n ∧ Empties b (opening p c) l₀ ∧
      (∀ j, l₀ < j → j < n → ¬ Empties b (opening p c) j) ∧
      (∀ i' l' w', l' < n → (semantics b).ComesTo (opening p c) (renderTop i') l' w' → l' ≤ l₀) ∧
      Pile b (opening p c) name l₀ n added ∧
      w.state.stack name = String.join (added.map Prod.snd) ∧
      (semantics b).after (opening p c) (n + 1) = some (.code (g (w.state.stack name)) k w) ∧
      ((∀ j, l < j → j < n → ¬ Empties b (opening p c) j) → l₀ = l) := by
  obtain ⟨l₀, added, hle, h⟩ := stack_after hb hp (empties_of_renderTop hl) hln hn name
  refine ⟨l₀, added, hle, h.before, h.emptied, h.last, ?_, h.pile, h.text,
    Semantics.after_next hn rfl, ?_⟩
  · intro i' l' w' hl' hbegins
    by_contra hgt
    exact h.last l' (Nat.lt_of_not_le hgt) hl' (empties_of_renderTop hbegins)
  · intro hno
    by_contra hne
    exact hno l₀ (by omega) h.before h.emptied

end View

/-! ## Two that share the stacks -/

namespace Notices

/-- As a method, the code changes the notice, and then tells what is on the stack. -/
def behaviour : Behaviour .single where
  invoke _ occasion :=
    match occasion with
    | .method _ _ => .step (.write (.set ⟨0⟩ "text" (.text "sold"))) fun _ =>
      stackText "scripts" >>= fun s => .done (.ok (.text s))
    | _ => .done (.ok .undefined)
  task t := nomatch t

def notice : Definition Client.single.Body where
  name := "notice"
  source := .routine ⟨[.push "scripts" [.text "b"], .echo (.name "text")]⟩

/-- A page with a script, which changes the notice while it is rendered. -/
def page : Definition Client.single.Body where
  name := "page"
  source := .routine ⟨[.push "scripts" [.text "a"], .echo (.call (.name "change") []), .text ":",
    .stack "scripts"]⟩
  methods := .ofList [("change", ())]

/-- The notice is mounted if there is a place for it. The page comes second. -/
def prepare (place : Option String) : View .single Unit :=
  .step (.newObject (.ofList [("text", .text "for sale")])) fun o =>
    construct notice { data := some o } >>= keep >>= fun i =>
      construct page {} >>= keep >>= fun _ =>
        match place with
        | none => .done ()
        | some selector => newTarget selector >>= fun t => mountTarget i t >>= .done

def visit (place : Option String) : View .single Rendered :=
  prepare place >>= fun _ => renderTop ⟨1⟩ >>= .done

lemma abides_behaviour : behaviour.Abides := by
  refine ⟨fun _ occasion => ?_, nofun⟩
  cases occasion with
  | method data args => exact .step trivial fun _ => .step trivial fun _ => .done _
  | _ => exact .done _

lemma abides_visit (selector : String) : (visit (some selector)).Abides := by
  refine .step trivial fun o => ?_
  change KeepsTo _ (construct notice _ >>= keep >>= _ >>= fun _ => renderTop ⟨1⟩ >>= .done)
  rw [bind_assoc]
  refine .create notice _ fun i => ?_
  rw [bind_assoc]
  refine .create page _ fun _ => ?_
  rw [bind_assoc]
  refine .newTarget selector fun t => ?_
  rw [bind_assoc]
  exact .mountTarget i t fun _ => .renderTop ⟨1⟩ .done

/-- What is checked of the moment at which the page has the notice changed. -/
def aboutToChange (m : Moment Client.single.signature) : Bool :=
  match m.op? with
  | some (.call (.invoke () (.method _ _))) =>
    ((Program.perform (S := Client.single.signature)
      (.write (.set ⟨0⟩ "text" (.text "sold")))).run ((semantics behaviour).caller 4)
        m.world).any fun r => r.2.state.stack "scripts" == "b"
  | _ => false

/-- The page has only `a` on its stack when it is alone. With the notice mounted, it finds what the
notice put there, and nothing of its own. -/
theorem page_shows_notice :
    ((visit none).run ((View.semantics behaviour).caller 9) { state := { client := () } }).map
        Prod.fst = some (.markup "a:a") ∧
      ((visit (some "#board")).run ((semantics behaviour).caller 9)
        { state := { client := () } }).map Prod.fst = some (.markup "b:b") := by
  constructor <;> decide +kernel

/-- In the midst of rendering the page, what there is on the stack was added after the page began.
It is what the notice added. -/
theorem stack_yields_pushes_since_emptied_notices :
    ∃ l n w₀ w added, ∃ k : Pending Client.single.signature (Except ValueError Value),
      (View.semantics behaviour).ComesTo (View.opening (visit (some "#board")) ())
        (View.renderTop ⟨1⟩) l w₀ ∧
      (View.semantics behaviour).after (View.opening (visit (some "#board")) ()) n =
        some (.code (View.stackText "scripts" >>= fun s => .done (.ok (.text s))) k w) ∧
      (∃ l₀, l ≤ l₀ ∧ l₀ < n ∧
        View.Pile behaviour (View.opening (visit (some "#board")) ()) "scripts" l₀ n added) ∧
      String.join (added.map Prod.snd) = "b" := by
  have hcheck : ((prepare (some "#board")).run ((semantics behaviour).caller 4)
      { state := { client := () } }).any (fun r => ((semantics behaviour).after
        (.code (renderTop ⟨1⟩ >>= .done) .nothing r.2) 6).any aboutToChange) = true := by
    decide +kernel
  obtain ⟨⟨⟨⟩, w₀⟩, hprepared, hcheck⟩ := (Option.any_eq_true _ _).mp hcheck
  obtain ⟨m, hm, hcheck⟩ := (Option.any_eq_true _ _).mp hcheck
  obtain ⟨l, hl⟩ := Semantics.leads_bind hprepared (fun _ => renderTop ⟨1⟩ >>= .done) .nothing
  have hm : (semantics behaviour).after (opening (visit (some "#board")) ()) (l + 6) =
      some m := (Semantics.after_from hl 6).trans hm
  rw [aboutToChange] at hcheck
  split at hcheck
  · rename_i data args hop
    obtain ⟨⟨⟨⟩, w⟩, hwritten, hstack⟩ := (Option.any_eq_true _ _).mp hcheck
    obtain ⟨_, f, k, hnext⟩ := next_of_op? (semantics behaviour) hop
    obtain ⟨d, hd⟩ := Semantics.leads_bind hwritten (fun _ =>
      stackText "scripts" >>= fun s => Program.done (.ok (.text s))) (.goOn f k)
    have hn := (Semantics.after_from (Semantics.after_next hm hnext) d).trans hd
    have hbegins : (semantics behaviour).ComesTo (opening (visit (some "#board")) ())
        (renderTop ⟨1⟩) l w₀ := ⟨_, _, _, hl⟩
    obtain ⟨l₀, added, hle, hlt, -, -, -, hpile, htext, -, -⟩ :=
      stack_yields_pushes_since_emptied abides_behaviour (abides_visit "#board") hbegins
        (by omega) hn
    refine ⟨l, l + 6 + 1 + d, w₀, w, added, _, hbegins, hn, ⟨l₀, hle, hlt, hpile⟩, ?_⟩
    exact htext.symm.trans (beq_iff_eq.mp hstack)
  · cases hcheck

end Notices

end LiveMarkup
