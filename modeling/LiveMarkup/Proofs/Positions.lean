import LiveMarkup.Proofs.Magnitudes
import LiveMarkup.Proofs.Splitting

/-!
# Positions as numbers and as texts

A list takes a whole number for a position, and a text if it is written like one. The number is cut
off at the greatest position there is; the text is read digit by digit and must not lie beyond it. A
number is written exactly up to `10 ^ 21`, and with the fewest digits and zeros behind them from
there on, which is still too great for a position.
-/

namespace LiveMarkup

open List

namespace Decimal

open Float.Model

variable {x : Float} {m : Nat} {e : Int}

/-! ## Written digits -/

/-- A whole number with `k` zeros at its end. -/
def wholeText (d k : Nat) : String :=
  digitText d ++ zeros k

lemma toList_wholeText (d k : Nat) :
    (wholeText d k).toList = Nat.toDigits 10 d ++ replicate k '0' := by
  simp [wholeText, digitText, zeros]

lemma all_isDigit_wholeText (d k : Nat) : (wholeText d k).toList.all Char.isDigit := by
  rw [toList_wholeText, all_append, all_replicate, Bool.and_eq_true]
  refine ⟨all_eq_true.mpr fun c hc => ?_, by cases k <;> rfl⟩
  exact Nat.isDigit_of_mem_toDigits (by decide) (by decide) hc

lemma readIndex?_wholeText (d k : Nat) : readIndex? (wholeText d k) =
    if d * 10 ^ k < 2 ^ 64 then some (d * 10 ^ k) else none := by
  have hvalue : digitsValue (wholeText d k).toList = d * 10 ^ k := by
    show Nat.ofDigitChars 10 _ 0 = _
    rw [toList_wholeText, Nat.ofDigitChars_append, Nat.ofDigitChars_ten_toDigits,
      Nat.ofDigitChars_replicate_zero, Nat.mul_comm]
  have hdigits := all_isDigit_wholeText d k
  have hne : (wholeText d k).toList ≠ [] := by
    rw [toList_wholeText]
    exact append_ne_nil_of_left_ne_nil Nat.toDigits_ne_nil _
  rw [readIndex?, ← hvalue]
  generalize (wholeText d k).toList = ds at *
  split
  · cases hdigits
  · simp [hne, hdigits]

lemma pointed_zero (n : Nat) : pointed n 0 = wholeText n 0 := by
  rw [pointed, if_pos rfl, Nat.sub_eq_zero_of_le Nat.length_toDigits_pos]
  exact (String.append_empty).symm

lemma write_plain (d k : Nat) : plain.write ⟨d, (k : Nat)⟩ = wholeText d k := by
  have hnat : ¬ ((k : Nat) : Int) < 0 := by omega
  simp [Layout.write, plain, Layout.positional, hnat, wholeText]

lemma Numeral.strip_whole (d k fuel : Nat) : ∃ d' k',
    (Numeral.mk d (k : Nat)).strip fuel = ⟨d', (k' : Nat)⟩ ∧ d' * 10 ^ k' = d * 10 ^ k := by
  induction fuel generalizing d k with
  | zero => exact ⟨d, k, rfl, rfl⟩
  | succ fuel ih =>
    rw [strip]
    split_ifs with h
    · obtain ⟨d', k', heq, hval⟩ := ih (d / 10) (k + 1)
      refine ⟨d', k', heq, hval.trans ?_⟩
      rw [Nat.pow_succ', ← Nat.mul_assoc, Nat.div_mul_cancel (Nat.dvd_of_mod_eq_zero h.2)]
    · exact ⟨d, k, rfl, rfl⟩

/-! ## Great numbers -/

lemma Interval.le_of_nearest? {i : Interval} (h : i.nearest? tie = some d) :
    i.value / i.den ≤ d := by
  unfold nearest? at h
  grind

/-- A grid keeps the size of what is looked for on it: the first digit is never lost. -/
lemma Interval.le_search {i : Interval} {t : Nat} (hden : i.den = 1) (hvalue : 10 ^ t ≤ i.value)
    (tie : Tie) (tries n : Nat) (hn : n + tries ≤ t) :
    ∃ d k, i.search tie (t + 1) tries (n + 1) = ⟨d, (k : Nat)⟩ ∧ 10 ^ t ≤ d * 10 ^ k := by
  have hgrid (n : Nat) (hn : n ≤ t) : (t : Int) + 1 - (n + 1 : Nat) = (t - n : Nat) ∧
      i.rescale ((t : Int) + 1 - (n + 1 : Nat)) = { i with den := 10 ^ (t - n) } := by
    have hexp : (t : Int) + 1 - (n + 1 : Nat) = (t - n : Nat) := by omega
    rw [hexp, rescale, if_neg (by omega)]
    simp [hden]
  have hbig (n d : Nat) (hn : n ≤ t) (hd : i.value / 10 ^ (t - n) ≤ d) :
      10 ^ t ≤ d * 10 ^ (t - n) := by
    have hsplit : 10 ^ t = 10 ^ n * 10 ^ (t - n) := by
      rw [← Nat.pow_add, Nat.add_sub_cancel' hn]
    have hle := (Nat.le_div_iff_mul_le (Nat.pow_pos (n := t - n) (Nat.zero_lt_succ 9))).mpr
      (hsplit ▸ hvalue)
    rw [hsplit]
    exact Nat.mul_le_mul_right _ (hle.trans hd)
  induction tries generalizing n with
  | zero =>
    rw [search, (hgrid n hn).2, (hgrid n hn).1]
    exact ⟨_, _, rfl, hbig n _ hn le_rfl⟩
  | succ tries ih =>
    have hle : n ≤ t := by omega
    rw [search, (hgrid n hle).2, (hgrid n hle).1]
    cases hd : ({ i with den := 10 ^ (t - n) } : Interval).nearest? tie with
    | some d => exact ⟨d, _, rfl, hbig n d hle (le_of_nearest? hd)⟩
    | none => exact ih (n + 1) (by omega)

lemma special_of_unpack (h : x.toModel.unpack = .finite .positive m e hm) :
    x.isNaN = false ∧ x.isInf = false ∧ (x == 0.0) = false :=
  ⟨congrArg UnpackedFloat.isNaN h, congrArg UnpackedFloat.isInf h, congrArg (UnpackedFloat.beq · _) h⟩

lemma plainText_great {hm : 0 < m} (h : x.toModel.unpack = .finite .positive m e hm)
    (hx : ¬ x < 1e21) : ∃ n d k, (Binary.mk m e).quotient = (n, 1) ∧ 10 ^ 21 ≤ n ∧
      plainText x = wholeText d k ∧ 10 ^ 21 ≤ d * 10 ^ k := by
  obtain ⟨hb, hneg, hfull⟩ := ofFloat_of_unpack h
  have hc : (1e21 : Float).toModel.unpack = .finite .positive (5 ^ 21 * 2 ^ 4) 17 (by decide) := rfl
  rw [lt_iff_of_unpack h hc] at hx
  obtain ⟨k, rfl⟩ : ∃ k : Nat, e = (k + 17 : Nat) := ⟨(e - 17).toNat, by omega⟩
  have hsize : 10 ^ 21 ≤ m * 2 ^ (k + 17) := by
    cases k with
    | zero => omega
    | succ k =>
      rw [show k + 1 + 17 = 18 + k by omega, Nat.pow_add, ← Nat.mul_assoc]
      exact Nat.le_mul_of_pos_right _ (Nat.two_pow_pos k) |>.trans' (by omega)
  have hvalue : (Binary.mk m (k + 17 : Nat)).interval.value = m * 2 ^ (k + 17) ∧
      (Binary.mk m (k + 17 : Nat)).interval.den = 1 := by
    have hexp : ((k + 17 : Nat) : Int) - 2 = (k + 15 : Nat) := by omega
    have hnat : ¬ ((k + 15 : Nat) : Int) < 0 := by omega
    simp only [Binary.interval, Binary.scale, hexp, if_neg hnat, Int.natAbs_natCast, Nat.pow_eq]
    exact ⟨by ring, trivial⟩
  obtain ⟨t, ht⟩ : ∃ t, digitCount (m * 2 ^ (k + 17)) = t + 1 :=
    ⟨_, (Nat.succ_pred_eq_of_pos Nat.length_toDigits_pos).symm⟩
  have hlength {j : Nat} (hj : 0 < j) : t + 1 ≤ j ↔ m * 2 ^ (k + 17) < 10 ^ j := by
    rw [← ht]
    exact Nat.length_toDigits_le_iff (by decide) hj
  have htop : 21 ≤ t := by
    have hlong := mt (hlength (j := 21) (by decide)).mp (by omega)
    omega
  have hlead : 10 ^ t ≤ m * 2 ^ (k + 17) :=
    Nat.not_lt.mp (mt (hlength (by omega)).mpr (by omega))
  obtain ⟨d, j, hsearch, hd⟩ := Interval.le_search hvalue.2 (hvalue.1 ▸ hlead) .up 17 0 (by omega)
  obtain ⟨d', j', hstrip, hd'⟩ := Numeral.strip_whole d j 20
  refine ⟨m * 2 ^ (k + 17), d', j', ?_, hsize, ?_, ?_⟩
  · have hnat : ¬ ((k + 17 : Nat) : Int) < 0 := by omega
    simp only [Binary.quotient, Binary.scale, if_neg hnat, Int.natAbs_natCast, Nat.pow_eq]
  · obtain ⟨hnan, hinf, -⟩ := special_of_unpack h
    have hdecade : decade (m * 2 ^ (k + 17)) 1 = t + 1 := by
      rw [decade, if_pos (by omega), Nat.div_one, ht]
      rfl
    rw [plainText, hnan, hinf, ← write_plain, ← hstrip, ← hsearch]
    simp only [Layout.writeFloat, hneg, hb, Binary.shortest, if_neg hm.ne', hvalue, hdecade]
    rfl
  · rw [hd']
    exact (Nat.pow_le_pow_right (by decide) htop).trans hd

/-! ## Whole numbers -/

lemma Binary.quotient_pos (b : Binary) : 0 < b.quotient.2 := by
  rw [quotient, scale]
  split_ifs <;> simp [Nat.pow_eq]

lemma abs_of_unpack (h : x.toModel.unpack = .finite .positive m e hm) : x.abs = x := by
  conv_rhs => rw [← Float.ofBits_toBits x]
  show Float.ofModel (.pack x.toModel.unpack.abs) = .ofModel (.pack x.toModel.unpack)
  rw [h]
  rfl

/-- A whole number that is not negative, as a position and as text. Both are exact below `2 ^ 64`,
and what is written beyond is too great for a position. -/
lemma text_of_whole (hx : x ≥ 0.0) (hwhole : isIntegral x) : ∃ n d k : Nat, truncate x = n ∧
    toIndex x = min n (2 ^ 64 - 1) ∧ Number.text x = wholeText d k ∧
    (d * 10 ^ k = n ∨ 2 ^ 64 ≤ d * 10 ^ k ∧ 2 ^ 64 ≤ n) := by
  obtain ⟨hfinite, hexact⟩ := Bool.and_eq_true_iff.mp hwhole
  change x.toModel.unpack.isFinite = true at hfinite
  cases h : x.toModel.unpack with
  | notANumber | infinity => simp [h, UnpackedFloat.isFinite] at hfinite
  | zero s =>
    have hzero : x == 0.0 := by
      show UnpackedFloat.beq x.toModel.unpack _ = true
      rw [h]
      cases s <;> rfl
    refine ⟨0, 0, 0, ?_, ?_, ?_, .inl rfl⟩ <;>
      obtain ⟨-, -, rfl | ⟨rfl, -⟩ | ⟨rfl, -⟩⟩ := Float.beq_iff_ne_nan_and_eq.mp hzero <;>
      decide +kernel
  | finite s m e hm =>
    obtain rfl : s = .positive := by
      cases s with
      | positive => rfl
      | negative =>
        have hle : UnpackedFloat.le (.zero .positive) x.toModel.unpack = true := of_decide_eq_true hx
        rw [h] at hle
        cases hle
    obtain ⟨hb, hneg, -⟩ := ofFloat_of_unpack h
    obtain ⟨hnan, hinf, hzero⟩ := special_of_unpack h
    have htruncate : truncate x =
        ((Binary.mk m e).quotient.1 / (Binary.mk m e).quotient.2 : Nat) := by
      rw [truncate, hneg, hb]
      rfl
    have hindex := toIndex_of_unpack h
    have htext : Number.text x = if x < 1e21 then fixedText x 0 else plainText x := by
      rw [Number.text, hnan, hinf, hzero, hwhole, abs_of_unpack h]
      simp
    rw [htext]
    split_ifs with hsmall
    · have hrem : (Binary.mk m e).quotient.1 % (Binary.mk m e).quotient.2 = 0 := by
        rw [← hb]
        exact beq_iff_eq.mp hexact
      refine ⟨_, _, 0, htruncate, hindex, ?_, .inl (Nat.mul_one _)⟩
      rw [fixedText, hnan, hinf, hneg, hb]
      show "" ++ pointed (roundDiv ((Binary.mk m e).quotient.1 * 1) (Binary.mk m e).quotient.2) 0 = _
      rw [String.empty_append, Nat.mul_one, roundDiv, hrem, if_pos (Binary.quotient_pos _),
        pointed_zero]
    · obtain ⟨n, d, k, hquotient, hn, htext, hd⟩ := plainText_great h hsmall
      rw [hquotient, Nat.div_one] at htruncate hindex
      exact ⟨n, d, k, htruncate, hindex, htext, .inr ⟨by omega, by omega⟩⟩

end Decimal

/-! ## Looking into a list -/

namespace Eval

open Program Decimal

variable {S : Signature} {call : Caller S} {w : World S} {l : ListId}

lemma run_ask {q : Query} {a : q.Answer} (h : q.answer w.heap = some (a, slots)) :
    (ask (S := S) q).run.run call w = some (.ok a, w.trackAll slots) := by
  show ((Program.read q).bind _).run call w = _
  simp only [Program.read, perform, Program.bind, Program.run, Op.perform, h]
  rfl

/-- What a list has under a text, and the slot that is looked at for it. -/
def listProperty (h : Heap) (l : ListId) (key : String) : Value × List Slot :=
  if key = "length" then (.ofNat (h.items l).length, [.length l])
  else (readIndex? key).elim (.undefined, []) fun i => ((h.items l).getD i .undefined, [.item l i])

lemma run_property_list (l : ListId) (key : String) :
    (property (S := S) (.list l) key).run.run call w =
      some (.ok (listProperty w.heap l key).1, w.trackAll (listProperty w.heap l key).2) := by
  rw [property, listProperty]
  by_cases hkey : key = "length"
  · rw [if_pos (by simp [hkey]), if_pos hkey]
    exact Expr.run_bind_of_ok (run_ask rfl) _
  · rw [if_neg (by simpa using hkey), if_neg hkey]
    cases readIndex? key with
    | none => rfl
    | some i => exact run_ask rfl

lemma listProperty_wholeText (h : Heap) (l : ListId) (d k : Nat) :
    listProperty h l (wholeText d k) =
      if d * 10 ^ k < 2 ^ 64 then ((h.items l).getD (d * 10 ^ k) .undefined, [.item l (d * 10 ^ k)])
      else (.undefined, []) := by
  have hkey : wholeText d k ≠ "length" := by
    intro heq
    have hdigits := all_isDigit_wholeText d k
    rw [heq] at hdigits
    cases hdigits
  rw [listProperty, if_neg hkey, readIndex?_wholeText]
  split_ifs <;> rfl

/-- A list gives the same at a number and at the text of the number, if it is no longer than
positions reach. Below `2 ^ 64` the two ways to write a whole number lead to the same slot. -/
theorem index_number_eq_index_text {env : Environment S} {target key key' : Expr} {u v v' : World S}
    {x : Float} (htarget : (target.eval env).run.run call w = some (.ok (.list l), u))
    (hkey : (key.eval env).run.run call u = some (.ok (.number x), v))
    (hkey' : (key'.eval env).run.run call u = some (.ok (.text (Number.text x)), v'))
    (hheap : v.heap = v'.heap) (hlength : (v.heap.items l).length < 2 ^ 64) :
    ∃ value slots slots',
      ((Expr.index target key).eval env).run.run call w = some (.ok value, v.trackAll slots) ∧
      ((Expr.index target key').eval env).run.run call w = some (.ok value, v'.trackAll slots') ∧
      (x ≥ 0.0 → isIntegral x → truncate x < 2 ^ 64 →
        slots = [.item l (truncate x).toNat] ∧ slots' = [.item l (truncate x).toNat]) := by
  have htext : (atKey (S := S) (.list l) (.text (Number.text x))).run.run call v' =
      (property (.list l) (Number.text x)).run.run call v' :=
    Expr.run_bind_of_ok (run_ask (Query.answer_display fun _ => rfl)) _
  rw [Expr.eval, Expr.run_bind_of_ok htarget, Expr.run_bind_of_ok hkey,
    Expr.eval, Expr.run_bind_of_ok htarget, Expr.run_bind_of_ok hkey', htext]
  by_cases hwhole : x ≥ 0.0 ∧ isIntegral x
  · obtain ⟨n, d, k, htruncate, hindex, hwritten, hn⟩ := text_of_whole hwhole.1 hwhole.2
    have hnumber : (atKey (S := S) (.list l) (.number x)).run.run call v = some
        (.ok ((v.heap.items l).getD (toIndex x) .undefined), v.trackAll [.item l (toIndex x)]) := by
      rw [atKey, if_pos (by simp [hwhole])]
      exact run_ask rfl
    rw [hnumber, run_property_list, ← hheap, hwritten, listProperty_wholeText, htruncate, hindex]
    by_cases hsmall : n < 2 ^ 64
    · have hd : d * 10 ^ k = n := by omega
      rw [if_pos (by omega), hd, Nat.min_eq_left (by omega)]
      exact ⟨_, _, _, rfl, rfl, fun _ _ _ => ⟨rfl, rfl⟩⟩
    · rw [if_neg (by omega), Nat.min_eq_right (by omega), getD_eq_default _ _ (by omega)]
      exact ⟨_, _, _, rfl, rfl, fun _ _ hlt => absurd hlt (by omega)⟩
  · have hnumber : (atKey (S := S) (.list l) (.number x)).run.run call v =
        (property (.list l) (Number.text x)).run.run call v := by
      rw [atKey, if_neg (by simpa using hwhole)]
      exact Expr.run_bind_of_ok (run_ask (Query.answer_display fun _ => rfl)) _
    rw [hnumber, run_property_list, run_property_list, ← hheap]
    exact ⟨_, _, _, rfl, rfl, fun hx hi _ => absurd ⟨hx, hi⟩ hwhole⟩

theorem index_number_eq_index_text_second :
    let w : World Ouroboros := { heap := Ouroboros.heap, state := () }
    let look (key : Expr) :=
      ((Expr.index (.name "l") key).eval Ouroboros.env).run.run (fun _ _ => none) w
    ∃ value, look (.number 1) = some (.ok value, w.trackAll [.item ⟨0⟩ 1]) ∧
      look (.text "1") = some (.ok value, w.trackAll [.item ⟨0⟩ 1]) := by
  intro w look
  have htext : Number.text 1 = "1" := by decide +kernel
  have hkey (e : Expr) (v : Value) (h : e.eval Ouroboros.env = pure v) :
      (e.eval Ouroboros.env).run.run (fun _ _ => none) w = some (.ok v, w) := by
    rw [h]
    rfl
  obtain ⟨value, _, _, hnumber, hwritten, hslots⟩ := index_number_eq_index_text
    (hkey (.name "l") _ rfl) (hkey (.number 1) _ rfl) (hkey (.text _) _ rfl) rfl (by decide)
  obtain ⟨rfl, rfl⟩ := hslots (by decide +kernel) (by decide +kernel) (by decide +kernel)
  rw [htext] at hwritten
  exact ⟨value, hnumber, hwritten⟩

end Eval

end LiveMarkup
