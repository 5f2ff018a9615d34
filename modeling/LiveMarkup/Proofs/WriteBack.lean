import LiveMarkup.Proofs.Circularity
import LiveMarkup.Proofs.Fields
import LiveMarkup.Proofs.SideBySide

/-!
# Writing back through a path

A two-way binding shows an expression and writes to a path. The path was checked as a text, the
expression was parsed from that text, and a write cuts it at its dots once more; all three go by the
same names. So what is written under a path is what the binding shows afterwards, as long as no
object on the way contains itself. The exception is a first name that is a literal for the parser:
such a binding shows the literal, wherever it writes.
-/

namespace LiveMarkup

open Relation List

variable {C : Client} {h : Heap}

/-! ## What a path spells -/

namespace Expr

lemma path?_access_of_dotted (hm : Clause.Dotted (m :: ns) cs) (hq : e.path? = some q) :
    ∃ r, (access (.member e m) ns).path? = some r ∧ r.toList = q.toList ++ '.' :: cs := by
  have hmember : (member e m).path? = some (q ++ "." ++ m) := by
    rw [path?, hq]
    rfl
  induction ns generalizing e m q cs with
  | nil =>
    cases hm with
    | last => exact ⟨_, hmember, by simp⟩
    | more _ hns => exact absurd rfl hns.ne_nil
  | cons k ns ih =>
    cases hm with
    | more _ hns =>
      obtain ⟨r, hr, htext⟩ := ih hns hmember (by rw [path?, hmember]; rfl)
      exact ⟨r, hr, by simp [htext]⟩

lemma path?_access_name (hn : Clause.Dotted (n :: ns) p.toList) :
    (access (.name n) ns).path? = some p := by
  generalize hp : p.toList = cs at hn
  cases hn with
  | last => rw [String.toList_inj.mp hp]; rfl
  | @more _ ns' _ _ hns =>
    obtain ⟨m, ns, rfl⟩ := exists_cons_of_ne_nil hns.ne_nil
    obtain ⟨r, hr, htext⟩ := path?_access_of_dotted hns (e := .name n) rfl
    rw [← String.toList_inj.mp (htext.trans hp.symm)]
    exact hr

lemma path?_access_eq_none (he : e.path? = none) (ns : List String) :
    (access e ns).path? = none := by
  induction ns generalizing e with
  | nil => exact he
  | cons m ns ih => exact ih (by rw [path?, he]; rfl)

lemma path?_literal (hn : n ∈ literalWords) : (ExprParser.wordExpr n).path? = none := by
  simp only [literalWords, mem_cons, not_mem_nil, or_false] at hn
  rcases hn with rfl | rfl | rfl | rfl <;> rfl

end Expr

namespace Compile

lemma of_model (h : model args = .ok i) :
    ∃ p e, i = .model p e ∧ Clause.isPath p.toList = true ∧ Expr.parse p = .ok e := by
  unfold model at h
  obtain ⟨a, -, h⟩ := ok_of_bind h
  dsimp only at h
  split at h
  · cases h
  · rename_i hpath
    obtain ⟨e, he, h⟩ := ok_of_bind h
    cases h
    exact ⟨_, e, rfl, by simpa using hpath, parse_of_expression he⟩

/-- What a two-way binding shows is spelled by the path that it writes to, unless the first name of
the path is a literal. Then it shows the same everywhere. -/
theorem model_spells_path_iff (h : model args = .ok i) :
    ∃ p e n ns, i = .model p e ∧ View.pathNames p = n :: ns ∧
      (n ∉ Expr.literalWords → e = Expr.access (.name n) ns ∧ e.path? = some p) ∧
      (n ∈ Expr.literalWords → e.path? = none ∧ e.IsFixed) := by
  obtain ⟨p, e, rfl, hp, he⟩ := of_model h
  obtain ⟨n, ns, hnames, rfl⟩ := Expr.eq_access_of_parse hp he
  have hdotted := Clause.dotted_pathNames hp
  rw [hnames] at hdotted
  refine ⟨p, _, n, ns, rfl, hnames, fun hn => ?_, fun hn => ?_⟩
  · rw [Expr.wordExpr_of_not_literal hn]
    exact ⟨rfl, Expr.path?_access_name hdotted⟩
  · exact ⟨Expr.path?_access_eq_none (Expr.path?_literal hn) ns,
      (Expr.isFixed_of_literal hn).access ns⟩

lemma model_user_name :
    model (some "user.name") = .ok (.model "user.name" (.member (.name "user") "name")) := by
  rw [model_of_isPath Field.isPath_user_name, expression, Field.parse_user_name]
  rfl

theorem model_spells_path_user_name :
    model (some "user.name") = .ok (.model "user.name" (.member (.name "user") "name")) ∧
      (Expr.member (.name "user") "name").path? = some "user.name" := by
  refine ⟨model_user_name, ?_⟩
  obtain ⟨p, e, n, ns, hi, hnames, hspells, -⟩ := model_spells_path_iff model_user_name
  cases hi
  have hpath : View.pathNames "user.name" = ["user", "name"] := by decide
  rw [hpath] at hnames
  cases hnames
  exact (hspells (by decide)).2

/-- A field can be bound to a property that it never shows. -/
theorem model_true_spells_no_path :
    ∃ e, model (some "true") = .ok (.model "true" e) ∧ e.path? = none := by
  have htokens : ExprToken.tokenize "true" = .ok [.name "true"] :=
    ExprToken.scan_cons (ExprToken.next_of_isNameStart rfl) (ExprToken.scan_nil _)
  have hderives := (Expr.derives_tokens (e := .bool true) trivial).loosest
  have hparse : Expr.parse "true" = .ok (.bool true) :=
    (Expr.parse_eq_ok_iff htokens).mpr (ExprParser.reads_all_iff.mpr hderives)
  refine ⟨.bool true, ?_, rfl⟩
  rw [model_of_isPath (by decide), expression, hparse]
  rfl

end Compile

/-! ## Objects on the way -/

/-- Names lead through objects to an object. -/
inductive Heap.LeadsTo (h : Heap) (t : ObjectId) : ObjectId → List String → Prop
  | here : LeadsTo h t t []
  | inside {o o' : ObjectId} {n : String} {ns : List String}
      (hnext : (h.fields o).get? n = some (.object o')) (hns : LeadsTo h t o' ns) :
      LeadsTo h t o (n :: ns)

namespace Heap

lemma part_of_get? (hget : (h.fields o).get? n = some (.object o')) :
    h.Part (.object o) (.object o') :=
  ⟨.object o, rfl, mem_map.mpr ⟨_, mem_of_lookup hget, rfl⟩⟩

lemma LeadsTo.reaches (hlead : h.LeadsTo t o ns) : ReflTransGen h.Part (.object o) (.object t) := by
  induction hlead with
  | here => exact .refl
  | inside hnext _ ih => exact .head (part_of_get? hnext) ih

/-- A value stored in the last object is found from the first, for no object stands in itself. -/
lemma LeadsTo.storesAt (hlead : h.LeadsTo t o ns) (hcircle : ¬ h.Circular (.object o))
    {h' : Heap} (hsame : ∀ o, o ≠ t → h'.fields o = h.fields o)
    (hv : (h'.fields t).get? last = some v) : h'.StoresAt v o (ns ++ [last]) := by
  induction hlead with
  | here => exact .here hv
  | @inside o o' n ns hnext hns ih =>
    have hpart := part_of_get? hnext
    have hne : o ≠ t := by
      rintro rfl
      exact hcircle ⟨_, .refl, TransGen.head' hpart hns.reaches⟩
    refine .inside (by rw [hsame o hne, hnext]) (ih fun ⟨x, hx, hcycle⟩ => ?_)
    exact hcircle ⟨x, .head hpart hx, hcycle⟩

lemma exists_get?_set (ho : h.Holds (.object o)) (name : String) (v : Value) :
    ∃ u, ((((Update.set o name v).apply h).2.1).fields o).get? name = some u ∧
      (u = v ∨ u.strictEq v = true) := by
  rw [Update.apply_set]
  split
  · rw [fields_setFields_of_holds h ho, Table.get?_insert, if_pos rfl]
    exact ⟨v, rfl, .inl rfl⟩
  · rename_i hstores
    rw [Update.stores, Bool.not_eq_true, Bool.not_eq_false', Option.any_eq_true] at hstores
    obtain ⟨u, hu, heq⟩ := hstores
    exact ⟨u, hu, .inr heq⟩

lemma fields_set_of_ne (hne : o' ≠ o) (name : String) (v : Value) :
    (((Update.set o name v).apply h).2.1).fields o' = h.fields o' := by
  rw [Update.apply_set]
  split
  · exact fields_setFields_of_ne h _ hne
  · rfl

lemma unchanged_set (hs : s ≠ .property o name)
    (hnew : s = .iteration o → (h.fields o).contains name = true) (v : Value) :
    h.Unchanged ((Update.set o name v).apply h).2.1 s := by
  refine Update.unchanged_of_notMem h _ fun hmem => ?_
  rw [Update.apply_set] at hmem
  split at hmem
  · rcases mem_cons.mp hmem with heq | hmem
    · exact hs heq
    · split at hmem
      · cases hmem
      · rename_i habsent
        exact habsent (hnew (mem_singleton.mp hmem))
  · cases hmem

end Heap

/-! ## Writing -/

namespace View

lemma run_follow (call : C.Caller) (w : C.World) (o : ObjectId) (ns : List String) :
    ∃ r, (follow o ns).run call w = some (r, w) ∧ ∀ t, r = some t ↔ w.heap.LeadsTo t o ns := by
  induction ns generalizing o with
  | nil =>
    refine ⟨some o, rfl, fun t => ⟨fun h => ?_, fun h => ?_⟩⟩
    · cases h
      exact .here
    · cases h
      rfl
  | cons n ns ih =>
    have hpeek : (Program.peek (.property o n)).run call w =
        some ((w.heap.fields o).get? n, w) := rfl
    rw [follow, Program.run_bind, hpeek, Option.bind_some]
    split
    · rename_i next hnext
      obtain ⟨r, hr, hiff⟩ := ih next
      refine ⟨r, hr, fun t => (hiff t).trans ⟨.inside hnext, fun h => ?_⟩⟩
      cases h with
      | inside hnext' hns =>
        cases hnext.symm.trans hnext'
        exact hns
    · rename_i hnot
      refine ⟨none, rfl, fun t => ⟨nofun, fun h => ?_⟩⟩
      cases h with
      | inside hnext _ => exact absurd hnext (hnot _)

/-- What is written under a path is what the binding shows, and nothing else has changed. Where the
names before the last one lead to no object, nothing is written. -/
theorem writePath_reads_back {args : Option String} {p : String} {e : Expr}
    (hmodel : Compile.model args = .ok (.model p e)) {w : C.World} {data : ObjectId}
    (hcircle : ¬ w.heap.Circular (.object data)) (hidle : w.registry.subscribers = []) (v : Value)
    (call : C.Caller) :
    ∃ n ns front last, pathNames p = n :: ns ∧ pathNames p = front ++ [last] ∧
      (∀ o, w.heap.LeadsTo o data front → w.heap.Holds (.object o) → ∃ h : Heap,
        (writePath data p v).run call w = some ((), { w with heap := h }) ∧
        h.hosts = w.heap.hosts ∧
        (∀ s, s ≠ .property o last →
          (s = .iteration o → (w.heap.fields o).contains last = true) → w.heap.Unchanged h s) ∧
        (n ∉ Expr.literalWords → ∀ (env : Environment C.signature) (scope : Scope),
          env.lookup = scope.lookup → scope.data = data → scope.local? n = none →
          ∃ u slots, (e.eval env).run.run call { w with heap := h } =
            some (.ok u, ({ w with heap := h } : C.World).trackAll slots) ∧
            (u = v ∨ u.strictEq v = true))) ∧
      ((∀ o, ¬ w.heap.LeadsTo o data front) →
        (writePath data p v).run call w = some ((), w.write [.event .modelPathBroken])) := by
  obtain ⟨_, _, hmodel, hp, he⟩ := Compile.of_model hmodel
  cases hmodel
  obtain ⟨n, ns, hnames, rfl⟩ := Expr.eq_access_of_parse hp he
  obtain ⟨front, last, hlast⟩ : ∃ front last, n :: ns = front ++ [last] :=
    ⟨_, _, (dropLast_append_getLast (cons_ne_nil n ns)).symm⟩
  obtain ⟨r, hfollow, hr⟩ := run_follow call w data front
  have hwrite : (writePath data p v).run call w =
      (r.elim (Program.report .modelPathBroken) fun o => Program.write (.set o last v) :
        View C Unit).run call w := by
    rw [writePath, hnames, hlast, dropLast_concat, getLastD_concat, Program.run_bind,
      hfollow]
    cases r <;> rfl
  have hunwatched : w.Unwatched Set.univ := by
    refine ⟨by simp [hidle], fun o _ key => ?_⟩
    rw [Registry.subscribersOf, hidle]
    rfl
  refine ⟨n, ns, front, last, hnames, hnames.trans hlast, fun o hlead hheld => ?_, fun hnone => ?_⟩
  · obtain ⟨u, hu, hequal⟩ := Heap.exists_get?_set hheld last v
    refine ⟨((Update.set o last v).apply w.heap).2.1, ?_, ?_, fun s hs hnew => ?_, ?_⟩
    · rw [hwrite, (hr o).mpr hlead]
      exact (Program.run_perform _ _ _).trans (World.perform_set hunwatched trivial last v)
    · rw [Update.apply_set]
      split <;> rfl
    · exact Heap.unchanged_set hs hnew v
    · rintro hn env scope henv rfl hlocal
      have hstored := hlead.storesAt hcircle (fun o' hne => Heap.fields_set_of_ne hne last v) hu
      rw [← hlast] at hstored
      obtain ⟨slots, hrun⟩ := (Expr.finds_path hn hlocal henv hstored).run
        (w := { w with heap := ((Update.set o last v).apply w.heap).2.1 }) call
      exact ⟨u, slots, hrun, hequal⟩
  · cases r with
    | some o => exact absurd ((hr o).mp rfl) (hnone o)
    | none => exact hwrite

theorem writePath_reads_back_user_name :
    ¬ (Field.userNamed "Ann").Circular (.object ⟨0⟩) ∧
      ∀ {C : Client} (call : C.Caller) (state : C.signature.State) (globals : Table Value)
        (env : Environment C.signature), env.lookup = (Scope.mk ⟨0⟩ globals []).lookup →
        ∃ h, (writePath (C := C) ⟨0⟩ "user.name" (.text "Bob")).run call
            { heap := Field.userNamed "Ann", state := state } =
              some ((), { heap := h, state := state }) ∧
          ∃ slots, ((Expr.member (.name "user") "name").eval env).run.run call
            { heap := h, state := state } =
              some (.ok (.text "Bob"), World.trackAll { heap := h, state := state } slots) := by
  have hplain : ¬ (Field.userNamed "Ann").Circular (.object ⟨0⟩) := by
    rw [← Heap.comesRound_nil_iff]
    rintro (⟨-, ⟨⟩⟩ | ⟨⟨⟩, _ | ⟨_, ⟨⟩⟩, hround⟩)
    obtain ⟨⟨⟩, hseen⟩ | ⟨⟨⟩, _ | ⟨_, ⟨⟩⟩, hround⟩ := hround
    · exact absurd hseen (by decide)
    · exact Heap.not_comesRound_of_container? rfl hround
  refine ⟨hplain, fun {C} call state globals env henv => ?_⟩
  obtain ⟨n, ns, front, last, hnames, hfront, hleads, -⟩ :=
    writePath_reads_back (w := { heap := Field.userNamed "Ann", state := state })
      Compile.model_user_name hplain rfl (.text "Bob") call
  have hpath : pathNames "user.name" = ["user", "name"] := by decide
  rw [hpath] at hnames hfront
  cases hnames
  have hsplit : ["user"] ++ ["name"] = front ++ [last] := hfront
  obtain ⟨rfl, hlast⟩ := append_inj' hsplit rfl
  cases hlast
  obtain ⟨h, hrun, -, -, hshows⟩ := hleads ⟨1⟩ (.inside rfl .here) Nat.one_lt_two
  obtain ⟨u, slots, heval, heq⟩ := hshows (by decide) env _ henv rfl rfl
  have hu : u = .text "Bob" := by
    rcases heq with rfl | heq
    · rfl
    · cases u with
      | text s => rw [eq_of_beq heq]
      | _ => cases heq
  exact ⟨h, hrun, slots, hu ▸ heval⟩

end View

end LiveMarkup
