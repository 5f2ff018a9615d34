import LiveMarkup.Proofs.Likeness

/-!
# Expressions evaluate alike

Evaluation asks, creates and calls, and decides by answers only. In environments that are alike it
is therefore alike: equal results up to names, and equal failures.
-/

namespace LiveMarkup

open List

variable {L : Likeness S}

/-- Environments that give the same, up to names. -/
structure Environment.Alike (L : Likeness S) (env env' : Environment S) : Prop where
  lookup : ∀ n, L.Alike (Option.Rel L.value) (env.lookup n) (env'.lookup n)
  apply : ∀ {f f' args args'}, L.rel (.function f) (.function f') →
    Forall₂ L.value args args' → L.Applies (env.apply f args) (env'.apply f' args')
  invoke : ∀ {i i' args args'}, L.rel (.host i) (.host i') → ∀ name,
    Forall₂ L.value args args' → L.Applies (env.invoke i name args) (env'.invoke i' name args')

lemma EvalError.kind_eq_reference {e : EvalError} (h : (EvalError.reference n).kind = e.kind) :
    ∃ n', e = .reference n' := by
  cases e with
  | reference n' => exact ⟨n', rfl⟩
  | type message => simp [EvalError.kind] at h
  | value e => cases e <;> simp [EvalError.kind, ValueError.kind] at h

namespace Eval

open Likeness

lemma alike_ask (hq : q.Rel L.toNaming q') : L.Evals (q.AnswerRel L.toNaming q') (ask q) (ask q') :=
  .lift (L.read hq)

lemma alike_display (hv : L.value v v') : L.Evals Eq (display v) (display v') :=
  alike_ask (.display hv)

lemma alike_number (hv : L.value v v') : L.Evals Eq (number v) (number v') := alike_ask (.number hv)

lemma alike_ofValue (hp : L.Applies p p') : L.Evals L.value (ofValue p) (ofValue p') := by
  refine L.bind hp ?_
  intro r r' hr
  cases hr with
  | ok h => exact L.pure (.ok h)
  | error hkind h => exact L.pure (.error hkind fun hs => congrArg _ (h hs))

/-! ## Properties -/

lemma hostProperty_rel (hx : HostObject.Rel L.toNaming x x') (key : String) :
    L.value (hostProperty x key) (hostProperty x' key) := by
  cases hx with
  | plain | auth => exact .undefined
  | bag h => exact optionRel_getD (h.get? key) .undefined
  | store _ h =>
    simp only [hostProperty]
    split
    · exact .object h
    · exact .undefined

lemma textProperty_isPrimitive (s key : String) : (textProperty s key).isPrimitive = true := by
  rw [textProperty]
  split
  · rfl
  · split <;> rfl

lemma alike_property (hv : L.value v v') (key : String) :
    L.Evals L.value (property v key) (property v' key) := by
  cases hv with
  | undefined =>
    refine (alike_display .undefined).bindEq fun s => ?_
    exact .throw _
  | null =>
    refine (alike_display .null).bindEq fun s => ?_
    exact .throw _
  | object ho =>
    refine (alike_ask (.property ho key)).bind ?_
    intro v v' hv
    exact .pure (optionRel_getD hv .undefined)
  | list hl =>
    simp only [property]
    split
    · refine (alike_ask (.length hl)).bindEq fun n => ?_
      exact .pure (.number _)
    · split
      · exact alike_ask (.item hl _)
      · exact .pure .undefined
  | text s => exact .pure (.of_isPrimitive (textProperty_isPrimitive s key))
  | host hi =>
    refine (alike_ask (.hostObject hi)).bind ?_
    intro x x' hx
    exact .pure (hostProperty_rel hx key)
  | function _ name =>
    refine .pure ?_
    split
    · exact .text name
    · exact .undefined
  | bool | number => exact .pure .undefined

lemma alike_atKey (hv : L.value v v') (hk : L.value k k') :
    L.Evals L.value (atKey v k) (atKey v' k') := by
  have hshown : L.Evals L.value (display k >>= fun s => property v s)
      (display k' >>= fun s => property v' s) := by
    refine (alike_display hk).bindEq fun s => ?_
    exact alike_property hv s
  cases hv with
  | list hl =>
    cases hk with
    | number x =>
      simp only [atKey]
      split
      · exact alike_ask (.item hl _)
      · exact hshown
    | _ => exact hshown
  | _ => exact hshown

/-! ## Methods -/

lemma alike_argText (h : Forall₂ L.value args args') (i : Nat) :
    L.Evals Eq (argText args i) (argText args' i) := by
  have hi := optionRel_getElem? h i
  rw [argText, argText]
  generalize args[i]? = x, args'[i]? = x' at hi
  cases hi with
  | some hv => exact alike_display hv
  | none => exact .pure rfl

lemma alike_relativeIndex {v v' : Option Value} (h : Option.Rel L.value v v') (len fallback : Nat) :
    L.Evals Eq (relativeIndex v len fallback) (relativeIndex v' len fallback) := by
  cases h with
  | none => exact .pure rfl
  | @some v v' hv =>
    have hnumber : L.Evals Eq (number v >>= fun x => Pure.pure (clampIndex x len))
        (number v' >>= fun x => Pure.pure (clampIndex x len)) := by
      refine (alike_number hv).bindEq fun x => ?_
      exact .pure rfl
    cases hv with
    | undefined => exact .pure rfl
    | _ => exact hnumber

lemma alike_ofArgText (h : Forall₂ L.value args args') (hf : ∀ s, L.Evals L.value (f s) (f s)) :
    L.Evals L.value (argText args 0 >>= f) (argText args' 0 >>= f) := by
  refine (alike_argText h 0).bindEq fun s => ?_
  exact hf s

lemma alike_textMethod (s name : String) (h : Forall₂ L.value args args') :
    Option.Rel (L.Evals L.value) (textMethod s name args) (textMethod s name args') := by
  unfold textMethod
  split
  case h_1 | h_2 | h_3 | h_4 => exact .some (.pure (.text _))
  case h_5 | h_6 | h_7 => exact .some (alike_ofArgText h fun _ => .pure (.bool _))
  case h_8 =>
    refine .some (alike_ofArgText h fun needle => ?_)
    split
    · exact .pure (.number _)
    · exact .pure (.number _)
  case h_9 =>
    refine .some ((alike_relativeIndex (optionRel_getElem? h 0) _ _).bindEq fun start => ?_)
    refine (alike_relativeIndex (optionRel_getElem? h 1) _ _).bindEq fun stop => ?_
    exact .pure (.text _)
  case h_10 =>
    refine .some (alike_ofArgText h fun sep => ?_)
    have hpieces : ∀ pieces : List (List Char), Forall₂ L.value
        (pieces.map fun p => Value.text (String.ofList p))
        (pieces.map fun p => Value.text (String.ofList p)) := by
      intro pieces
      exact forall₂_same.mpr (by simp [Value.Rel.text])
    refine (AlikeExcept.lift (L.newList (hpieces _))).bind ?_
    intro l l' hl
    exact .pure (.list hl)
  case h_11 => exact .none

lemma alike_itemText (hv : L.value v v') : L.Evals Eq (itemText v) (itemText v') := by
  rw [itemText, itemText, hv.isNullish]
  split
  · exact .pure rfl
  · exact alike_display hv

lemma headD_rel (h : Forall₂ L.value args args') :
    L.value (args.headD .undefined) (args'.headD .undefined) := by
  cases h with
  | nil => exact .undefined
  | cons hv _ => exact hv

lemma slice_rel (h : Forall₂ L.value items items')
    (start stop : Nat) : Forall₂ L.value (slice items start stop) (slice items' start stop) :=
  forall₂_take _ (forall₂_drop _ h)

lemma findIdx?_strictEq_rel (hv : L.value v v') (h : Forall₂ L.value items items') :
    items.findIdx? (·.strictEq v) = items'.findIdx? (·.strictEq v') := by
  induction h with
  | nil => rfl
  | cons hu _ ih => rw [findIdx?_cons, findIdx?_cons, Value.Rel.strictEq hu hv, ih]

lemma any_strictEq_rel (hv : L.value v v') (h : Forall₂ L.value items items') :
    items.any (·.strictEq v) = items'.any (·.strictEq v') := by
  rw [← findIdx?_isSome, ← findIdx?_isSome, findIdx?_strictEq_rel hv h]

lemma alike_listMethod {l l' : ListId} (hl : L.rel (.list l) (.list l')) (name : String)
    (h : Forall₂ L.value args args') :
    Option.Rel (L.Evals L.value) (listMethod l name args) (listMethod l' name args') := by
  unfold listMethod
  split
  case h_1 =>
    have hjoin : ∀ sep : String, L.Evals L.value (do
          let items ← ask (.items l)
          let parts ← items.mapM itemText
          return .text (sep.intercalate parts) : Eval S Value)
        (do
          let items ← ask (.items l')
          let parts ← items.mapM itemText
          return .text (sep.intercalate parts)) := by
      intro sep
      refine (alike_ask (.items hl)).bind fun items items' hitems => ?_
      refine (AlikeExcept.mapM hitems fun _ _ => alike_itemText).bind ?_
      intro parts parts' hparts
      rw [forall₂_eq_eq_eq] at hparts
      rw [hparts]
      exact .pure (.text _)
    refine .some ?_
    cases h with
    | nil => exact hjoin ","
    | cons hv _ =>
      have hshown := alike_display hv
      cases hv with
      | undefined => exact hjoin ","
      | _ =>
        refine hshown.bindEq fun sep => ?_
        exact hjoin sep
  case h_2 =>
    refine .some ((alike_ask (.items hl)).bind fun items items' hitems => ?_)
    rw [any_strictEq_rel (headD_rel h) hitems]
    exact .pure (.bool _)
  case h_3 =>
    refine .some ((alike_ask (.items hl)).bind fun items items' hitems => ?_)
    rw [findIdx?_strictEq_rel (headD_rel h) hitems]
    split
    · exact .pure (.number _)
    · exact .pure (.number _)
  case h_4 =>
    refine .some ((alike_ask (.items hl)).bind fun items items' hitems => ?_)
    rw [← hitems.length_eq]
    refine (alike_relativeIndex (optionRel_getElem? h 0) _ _).bindEq fun start => ?_
    refine (alike_relativeIndex (optionRel_getElem? h 1) _ _).bindEq fun stop => ?_
    refine (AlikeExcept.lift (L.newList (slice_rel hitems start stop))).bind ?_
    intro l l' hl
    exact .pure (.list hl)
  case h_5 =>
    refine .some ((alike_display (.list hl)).bindEq fun s => ?_)
    exact .pure (.text s)
  case h_6 => exact .none

lemma alike_numberMethod (x : Float) (name : String) (h : Forall₂ L.value args args') :
    Option.Rel (L.Evals L.value) (numberMethod x name args) (numberMethod x name args') := by
  unfold numberMethod
  split
  case h_1 =>
    refine .some ?_
    cases h with
    | nil => exact .pure (.text _)
    | cons hv _ =>
      refine (alike_number hv).bindEq fun d => ?_
      exact .pure (.text _)
  case h_2 => exact .some (.pure (.text _))
  case h_3 => exact .none

lemma alike_notCallable (callee : Expr) : L.Evals R (notCallable callee) (notCallable callee) :=
  .throw _

lemma alike_callMethod (henv : env.Alike L env') (hv : L.value v v') (name : String)
    (h : Forall₂ L.value args args') (callee : Expr) :
    L.Evals L.value (callMethod env v name args callee) (callMethod env' v' name args' callee) := by
  have hshown := alike_display hv
  cases hv with
  | undefined | null =>
    refine hshown.bindEq fun s => ?_
    exact .throw _
  | object ho =>
    refine (alike_ask (.property ho name)).bind ?_
    intro w w' hw
    cases hw with
    | none => exact alike_notCallable callee
    | some hw =>
      cases hw with
      | function hf => exact alike_ofValue (henv.apply hf h)
      | _ => exact alike_notCallable callee
  | host hi => exact alike_ofValue (henv.invoke hi name h)
  | text s => exact optionRel_getD (alike_textMethod s name h) (alike_notCallable callee)
  | list hl => exact optionRel_getD (alike_listMethod hl name h) (alike_notCallable callee)
  | number x => exact optionRel_getD (alike_numberMethod x name h) (alike_notCallable callee)
  | bool | function =>
    simp only [callMethod]
    split
    · refine hshown.bindEq fun s => ?_
      exact .pure (.text s)
    · exact alike_notCallable callee

/-! ## Operators -/

lemma addsAsNumber_rel (hv : L.value v v') : addsAsNumber v = addsAsNumber v' := by
  cases hv <;> rfl

lemma alike_comparand (hv : L.value v v') :
    L.Evals (fun a a' => a = a' ∧ a.isPrimitive = true) (comparand v) (comparand v') := by
  rw [comparand, comparand, ← hv.isPrimitive]
  split
  · rename_i hp
    exact .pure ⟨hv.eq_of_isPrimitive hp, hp⟩
  · refine (alike_display hv).bindEq fun s => ?_
    exact .pure ⟨rfl, rfl⟩

lemma alike_order (hv : L.value v v') (hu : L.value u u') :
    L.Evals Eq (order v u) (order v' u') := by
  refine (alike_comparand hv).bind ?_
  rintro a _ ⟨rfl, ha⟩
  refine (alike_comparand hu).bind ?_
  rintro b _ ⟨rfl, hb⟩
  split
  · exact .pure rfl
  · refine (alike_number (.of_isPrimitive ha)).bindEq fun x => ?_
    refine (alike_number (.of_isPrimitive hb)).bindEq fun y => ?_
    exact .pure rfl

lemma alike_arithmetic (f : Float → Float → Float) (hv : L.value v v')
    (hu : L.value u u') : L.Evals L.value (arithmetic f v u) (arithmetic f v' u') := by
  refine (alike_number hv).bindEq fun x => ?_
  refine (alike_number hu).bindEq fun y => ?_
  exact .pure (.number _)

lemma alike_comparison (holds : Ordering → Bool) (hv : L.value v v') (hu : L.value u u') :
    L.Evals L.value (comparison holds v u) (comparison holds v' u') := by
  refine (alike_order hv hu).bindEq fun o => ?_
  exact .pure (.bool _)

lemma alike_binary (op : BinaryOp) (hv : L.value v v') (hu : L.value u u') :
    L.Evals L.value (binary op v u) (binary op v' u') := by
  cases op with
  | add =>
    rw [binary, binary, addsAsNumber_rel hv, addsAsNumber_rel hu]
    split
    · exact alike_arithmetic _ hv hu
    · refine (alike_display hv).bindEq fun s => ?_
      refine (alike_display hu).bindEq fun t => ?_
      exact .pure (.text _)
  | subtract | multiply | divide | remainder => exact alike_arithmetic _ hv hu
  | less | lessEqual | greater | greaterEqual => exact alike_comparison _ hv hu
  | looseEqual | looseNotEqual =>
    refine (alike_ask (.looseEq hv hu)).bindEq fun b => ?_
    exact .pure (.bool _)
  | strictEqual | strictNotEqual =>
    rw [binary, binary, hv.strictEq hu]
    exact .pure (.bool _)

lemma alike_unary (op : UnaryOp) (hv : L.value v v') :
    L.Evals L.value (unary op v) (unary op v') := by
  cases op with
  | not =>
    rw [unary, unary, hv.isTruthy]
    exact .pure (.bool _)
  | negate | plus =>
    refine (alike_number hv).bindEq fun x => ?_
    exact .pure (.number _)
  | typeof =>
    rw [unary, unary, hv.typeName]
    exact .pure (.text _)

lemma decided_rel (op : LogicalOp) (hv : L.value v v') : decided op v = decided op v' := by
  cases op with
  | and | or => rw [decided, decided, hv.isTruthy]
  | nullish => rw [decided, decided, hv.isNullish]

end Eval

/-! ## Expressions -/

namespace Expr

open Eval Likeness

mutual

lemma alike_eval (henv : env.Alike L env') (e : Expr) :
    L.Evals L.value (e.eval env) (e.eval env') := by
  cases e with
  | undefined => exact .pure .undefined
  | null => exact .pure .null
  | bool b => exact .pure (.bool b)
  | number x => exact .pure (.number x)
  | text s => exact .pure (.text s)
  | name n =>
    refine (AlikeExcept.lift (henv.lookup n)).bind ?_
    intro v v' hv
    cases hv with
    | some hv => exact .pure hv
    | none => exact .throw _
  | list items =>
    refine (alike_evalAll henv items).bind fun vs vs' hvs => ?_
    refine (AlikeExcept.lift (L.newList hvs)).bind fun l l' hl => ?_
    exact .pure (.list hl)
  | object entries =>
    refine (alike_evalEntries henv entries).bind fun vs vs' hvs => ?_
    refine (AlikeExcept.lift (L.newObject (.ofList hvs))).bind fun o o' ho => ?_
    exact .pure (.object ho.1)
  | member target key =>
    exact (alike_eval henv target).bind fun v v' hv => alike_property hv key
  | index target key =>
    refine (alike_eval henv target).bind fun v v' hv => ?_
    exact (alike_eval henv key).bind fun k k' hk => alike_atKey hv hk
  | call callee args =>
    have hplain : L.Evals L.value (do
          let v ← callee.eval env
          let values ← evalAll env args
          match v with
          | .function f _ => ofValue (env.apply f values)
          | _ => notCallable callee : Eval S Value)
        (do
          let v ← callee.eval env'
          let values ← evalAll env' args
          match v with
          | .function f _ => ofValue (env'.apply f values)
          | _ => notCallable callee) := by
      refine (alike_eval henv callee).bind fun v v' hv => ?_
      refine (alike_evalAll henv args).bind fun vs vs' hvs => ?_
      cases hv with
      | function hf => exact alike_ofValue (henv.apply hf hvs)
      | _ => exact alike_notCallable callee
    cases callee with
    | member target key =>
      refine (alike_eval henv target).bind fun v v' hv => ?_
      refine (alike_evalAll henv args).bind fun vs vs' hvs => ?_
      exact alike_callMethod henv hv key hvs _
    | _ => exact hplain
  | unary op operand =>
    have hplain : L.Evals L.value (operand.eval env >>= fun v => Eval.unary op v)
        (operand.eval env' >>= fun v => Eval.unary op v) :=
      (alike_eval henv operand).bind fun v v' hv => alike_unary op hv
    cases op with
    | typeof =>
      -- a name that stands for nothing is told by the kind of the failure
      refine hplain.tryCatch fun err err' hkind h => ?_
      cases err with
      | reference n =>
        obtain ⟨n', rfl⟩ := EvalError.kind_eq_reference hkind
        dsimp only
        split
        · exact .pure (.text _)
        · exact L.pure (.error hkind h)
      | _ =>
        cases err' with
        | reference n' =>
          obtain ⟨n, hn⟩ := EvalError.kind_eq_reference hkind.symm
          cases hn
        | _ => exact L.pure (.error hkind h)
    | _ => exact hplain
  | binary op left right =>
    refine (alike_eval henv left).bind fun v v' hv => ?_
    exact (alike_eval henv right).bind fun u u' hu => alike_binary op hv hu
  | logical op left right =>
    refine (alike_eval henv left).bind fun v v' hv => ?_
    rw [decided_rel op hv]
    split
    · exact .pure hv
    · exact alike_eval henv right
  | conditional test yes no =>
    refine (alike_eval henv test).bind fun v v' hv => ?_
    rw [hv.isTruthy]
    split
    · exact alike_eval henv yes
    · exact alike_eval henv no

lemma alike_evalAll (henv : env.Alike L env') (es : List Expr) :
    L.Evals (Forall₂ L.value) (evalAll env es) (evalAll env' es) := by
  cases es with
  | nil => exact .pure .nil
  | cons e rest =>
    refine (alike_eval henv e).bind fun v v' hv => ?_
    exact (alike_evalAll henv rest).bind fun vs vs' hvs => .pure (.cons hv hvs)

lemma alike_evalEntries (henv : env.Alike L env') (es : List (String × Expr)) :
    L.Evals (Forall₂ (EntryRel L.value)) (evalEntries env es) (evalEntries env' es) := by
  cases es with
  | nil => exact .pure .nil
  | cons e rest =>
    obtain ⟨key, e⟩ := e
    refine (alike_eval henv e).bind fun v v' hv => ?_
    exact (alike_evalEntries henv rest).bind fun vs vs' hvs => .pure (.cons ⟨rfl, hv⟩ hvs)

end

end Expr

end LiveMarkup
