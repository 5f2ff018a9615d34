import Mathlib
import LiveMarkup.Decimal.Read

/-!
# Numbers and their magnitudes

What is read off the 64 bits of a number is its value: the bits unpack to the same sign, significand
and exponent. A count below `2 ^ 53`, shifted until it fills the significand, is a number that
nothing rounds, and as a position it is the count again.
-/

namespace LiveMarkup.Decimal

open Float.Model UnpackedFloat

variable {m n : Nat} {e : Int} {s : Sign} {x : Float}

/-! ## Reading the bits -/

/-- The exact value of a finite number other than zero. Only the least exponent goes with a
significand of fewer than 53 bits. -/
lemma ofFloat_of_unpack {hm : 0 < m} (h : x.toModel.unpack = .finite s m e hm) :
    Binary.ofFloat x = ⟨m, e⟩ ∧ isNegative x = (s == .negative) ∧ (e = -1074 ∨ 2 ^ 52 ≤ m) := by
  have hlt := x.toBits.toNat_lt
  change UnpackedFloat.unpack .binary64 x.toBits.toBitVec = _ at h
  simp only [Binary.ofFloat, Binary.ofBits, isNegative, Nat.pow_eq]
  generalize x.toBits = bits at *
  have hmant : (@unpackMantissa .binary64 bits.toBitVec).toNat = bits.toNat % 2 ^ 52 := by
    simp [unpackMantissa_def]
  have hexp : (@unpackExponent .binary64 bits.toBitVec).toNat = bits.toNat / 2 ^ 52 % 2 ^ 11 := by
    simp only [unpackExponent_def, BitVec.extractLsb'_toNat, Nat.shiftRight_eq_div_pow]
    rfl
  have hbit : @unpackSign .binary64 bits.toBitVec = BitVec.ofNat 1 (bits.toNat / 2 ^ 63) := by
    apply BitVec.eq_of_toNat_eq
    simp only [unpackSign_def, BitVec.extractLsb'_toNat, Nat.shiftRight_eq_div_pow]
    rfl
  have hsign : (bits.toNat / 2 ^ 63 == 1) =
      (Sign.ofBitVec (@unpackSign .binary64 bits.toBitVec) == .negative) := by
    rw [hbit]
    obtain hbit | hbit : bits.toNat / 2 ^ 63 = 0 ∨ bits.toNat / 2 ^ 63 = 1 := by omega
    all_goals
      rw [hbit]
      rfl
  have hzero : @unpackExponent .binary64 bits.toBitVec = 0#11 ↔
      bits.toNat / 2 ^ 52 % 2 ^ 11 = 0 := by
    rw [← hexp]
    exact BitVec.toNat_eq
  simp only [UnpackedFloat.unpack] at h
  split_ifs at h with _ _ htag
  · cases h
    rw [if_pos (hzero.mp htag), hmant, htag]
    exact ⟨rfl, hsign, .inl rfl⟩
  · cases h
    have hfull : (1#1 ++ @unpackMantissa .binary64 bits.toBitVec).toNat =
        bits.toNat % 2 ^ 52 + 2 ^ 52 := by
      rw [BitVec.toNat_append, ← Nat.shiftLeft_add_eq_or_of_lt (BitVec.isLt _), hmant, Nat.add_comm]
      rfl
    rw [if_neg (mt hzero.mpr htag), hfull, hexp]
    exact ⟨rfl, hsign, .inr (by omega)⟩

lemma lt_iff_of_unpack {c : Float} {f : Int} {hm : 0 < m} {hn : 0 < n}
    (hx : x.toModel.unpack = .finite .positive m e hm)
    (hc : c.toModel.unpack = .finite .positive n f hn) : x < c ↔ e < f ∨ e = f ∧ m < n := by
  show decide (x.toModel < c.toModel) = true ↔ _
  rw [decide_eq_true_iff]
  show (UnpackedFloat.compare x.toModel.unpack c.toModel.unpack == some .lt) = true ↔ _
  rw [hx, hc, beq_iff_eq, UnpackedFloat.compare, Option.some.injEq, Ordering.then_eq_lt,
    compare_lt_iff_lt, compare_eq_iff_eq, compare_lt_iff_lt]

/-! ## Full significands -/

lemma log2_shiftLeft (hn : 0 < n) (k : Nat) : (n <<< k).log2 = n.log2 + k := by
  induction k with
  | zero => rfl
  | succ k ih =>
    rw [Nat.shiftLeft_succ, Nat.log2_two_mul (Nat.shiftLeft_pos_iff.mpr hn).ne', ih]
    rfl

/-- Zeros at the end of a significand are dropped without a trace. -/
lemma shiftRight_shiftLeft (m k : Nat) :
    ExtendedMantissa.ofMantissaAndAccuracy (m <<< k) .exact >>> k =
      .ofMantissaAndAccuracy m .exact := by
  induction k generalizing m with
  | zero => rfl
  | succ k ih =>
    rw [Nat.shiftLeft_succ_inside]
    refine (congrArg ExtendedMantissa.shiftRightOne (ih (2 * m))).trans ?_
    simp [ExtendedMantissa.shiftRightOne, ExtendedMantissa.ofMantissaAndAccuracy]

section Full

variable (hm : m.log2 = 52) (hpos : 0 < m)

include hm hpos

lemma shiftToTargetExponent_full (he : -1074 ≤ e) (k : Nat) :
    shiftToTargetExponent .binary64 (m <<< k) (e - k) .exact =
      (.ofMantissaAndAccuracy m .exact, e) := by
  have htarget : Format.targetExponent .binary64 (totalExponent (m <<< k) (e - k)) = e := by
    simp only [Format.targetExponent, totalExponent, log2_shiftLeft hpos, hm, Format.mantissaBits,
      Format.minExponent]
    omega
  have hamount : (e - (e - k)).toNat = k := by omega
  rw [shiftToTargetExponent, htarget, shiftToExponent, hamount]
  simp only [shiftRight_shiftLeft, Int.sub_add_cancel]

lemma roundWithAccuracy_full (he : -1074 ≤ e) (k : Nat) :
    roundWithAccuracy .binary64 s (m <<< k) (e - k) .exact = .finite s m e hpos := by
  have hround : (ExtendedMantissa.ofMantissaAndAccuracy m .exact).roundedMantissa = m := rfl
  have hagain := shiftToTargetExponent_full hm hpos he 0
  rw [Nat.shiftLeft_zero, Int.natCast_zero, Int.sub_zero] at hagain
  simp only [roundWithAccuracy, shiftToTargetExponent_full hm hpos he, hround, hagain]
  exact dif_neg hpos.ne'

/-- A number is not changed by being stored. -/
lemma unpack_pack_full (he : -1022 ≤ e + 52) (he' : e + 52 ≤ 1023) :
    (Float.Model.pack (.finite s m e hpos)).unpack = .finite s m e hpos := by
  obtain ⟨hlow, hhigh⟩ := (Nat.log2_eq_iff hpos.ne').mp hm
  have hbiased : (e + (Format.exponentBias .binary64 : Int) + ((52 : Nat) : Int)).toNat =
      (e + 1075).toNat := by
    simp only [Format.exponentBias]
    omega
  have hpack : UnpackedFloat.pack .binary64 (.finite s m e hpos) =
      packComponents .binary64 s (.ofNat 11 (e + 1075).toNat) (.ofNat 52 m) := by
    simp only [UnpackedFloat.pack, hm, hbiased]
    rw [if_neg (by omega), if_pos (by rfl)]
  have hexponent : (BitVec.ofNat 11 (e + 1075).toNat).toNat = (e + 1075).toNat := by
    rw [BitVec.toNat_ofNat]
    exact Nat.mod_eq_of_lt (by omega)
  -- The exponents with a meaning of their own are 0 and 2047.
  have hapart {k : Nat} (hk : k = 0 ∨ k = 2047) : BitVec.ofNat 11 (e + 1075).toNat ≠ .ofNat 11 k := by
    intro heq
    have hsame := congrArg BitVec.toNat heq
    rw [hexponent, BitVec.toNat_ofNat, Nat.mod_eq_of_lt (by omega)] at hsame
    omega
  have hmantissa : (1#1 ++ BitVec.ofNat 52 m).toNat = m := by
    have hlt : m % 2 ^ 52 < 2 ^ 52 := Nat.mod_lt _ (Nat.two_pow_pos 52)
    rw [BitVec.toNat_append, BitVec.toNat_ofNat m 52, ← Nat.shiftLeft_add_eq_or_of_lt hlt]
    simp only [BitVec.toNat_ofNat, Nat.shiftLeft_eq]
    omega
  have hback : ((e + 1075).toNat : Int) -
      ((Format.exponentBias .binary64 : Int) + ((52 : Nat) : Int)) = e := by
    simp only [Format.exponentBias]
    omega
  show UnpackedFloat.unpack .binary64 (UnpackedFloat.pack .binary64 _) = _
  rw [hpack, UnpackedFloat.unpack]
  simp only [unpackMantissa_packComponents, unpackExponent_packComponents,
    unpackSign_packComponents, hmantissa, hexponent, hback]
  rw [if_neg (show _ ≠ -1#11 from hapart (.inr rfl)), if_neg (hapart (.inl rfl))]
  cases s <;> rfl

end Full

/-! ## Counts -/

/-- A count with all 53 bits of the significand in use. -/
def filled (s : Sign) (n : Nat) (hn : 0 < n) : UnpackedFloat :=
  .finite s (n <<< (52 - n.log2)) (n.log2 - 52) (Nat.shiftLeft_pos_iff.mpr hn)

section Count

variable (hn : 0 < n) (h : n < 2 ^ 53)

include hn h

lemma log2_filled : n.log2 < 53 ∧ (n <<< (52 - n.log2)).log2 = 52 := by
  have hlog : n.log2 < 53 := (Nat.log2_lt hn.ne').mpr h
  refine ⟨hlog, ?_⟩
  rw [log2_shiftLeft hn]
  omega

lemma unpack_pack_filled : (Float.Model.pack (filled s n hn)).unpack = filled s n hn := by
  obtain ⟨hlog, hfull⟩ := log2_filled hn h
  exact unpack_pack_full hfull _ (by omega) (by omega)

lemma quotient_filled : (Binary.mk (n <<< (52 - n.log2)) (n.log2 - 52)).quotient =
    (n * 2 ^ (52 - n.log2), 2 ^ (52 - n.log2)) := by
  have hlog := (log2_filled hn h).1
  have hexp : ((n.log2 : Int) - 52).natAbs = 52 - n.log2 := by omega
  rw [Binary.quotient, Binary.scale, hexp, Nat.shiftLeft_eq]
  by_cases hfull : n.log2 = 52
  · simp [hfull]
  · simp [show ((n.log2 : Int) - 52) < 0 by omega]

lemma unpack_toFloat : n.toUInt64.toFloat.toModel.unpack = filled .positive n hn := by
  obtain ⟨hlog, hfull⟩ := log2_filled hn h
  have hword : n.toUInt64.toNat = n := by
    rw [Nat.toUInt64, UInt64.toNat_ofNat']
    exact Nat.mod_eq_of_lt (by omega)
  have hgt : compare (n : Int) 0 = .gt := by
    rw [Int.compare_eq_gt]
    omega
  have htarget : Format.targetExponent .binary64 (totalExponent n 0) = (n.log2 : Int) - 52 := by
    simp only [Format.targetExponent, totalExponent, Format.mantissaBits, Format.minExponent]
    omega
  have hamount : ((0 : Int) - ((n.log2 : Int) - 52)).toNat = 52 - n.log2 := by omega
  have hexponent : (0 : Int) - ((52 - n.log2 : Nat) : Int) = (n.log2 : Int) - 52 := by omega
  refine Eq.trans (congrArg (unpack ∘ pack) ?_) (unpack_pack_filled hn h)
  show UnpackedFloat.ofNat _ n.toUInt64.toNat = _
  rw [hword]
  simp only [UnpackedFloat.ofNat, UnpackedFloat.ofInt, UnpackedFloat.normalize, hgt,
    UnpackedFloat.round, Int.toNat_natCast, htarget, decreaseExponent, hamount, hexponent]
  have hround := roundWithAccuracy_full (s := .positive) (e := n.log2 - 52) hfull
    (Nat.shiftLeft_pos_iff.mpr hn) (by omega) 0
  rwa [Nat.shiftLeft_zero, Int.natCast_zero, Int.sub_zero] at hround

end Count

lemma roundToInt_positive (m : Nat) (e : Int) :
    roundToInt .positive m e = ((Binary.mk m e).quotient.1 / (Binary.mk m e).quotient.2 : Nat) := by
  have hshift (k : Nat) (x : ExtendedMantissa) : (x >>> k).mantissa = x.mantissa >>> k := by
    induction k with
    | zero => rfl
    | succ k ih =>
      rw [Nat.shiftRight_succ, ← ih]
      rfl
  simp only [roundToInt, decreaseExponent, shiftToExponent, hshift, Binary.quotient, Binary.scale]
  show ((m <<< (e - 0).toNat) >>> (0 - (e - ((e - 0).toNat : Int))).toNat : Nat) = (_ : Int)
  split_ifs with he
  · simp only [show (e - 0).toNat = 0 by omega, Nat.shiftLeft_zero, Nat.shiftRight_eq_div_pow,
      show (0 - (e - ((0 : Nat) : Int))).toNat = e.natAbs by omega, Nat.mul_one, Nat.pow_eq]
  · simp only [show (e - 0).toNat = e.natAbs by omega, Nat.shiftLeft_eq, Nat.div_one, Nat.pow_eq,
      show (0 - (e - (e.natAbs : Int))).toNat = 0 by omega, Nat.shiftRight_zero]

/-- As a position, a number loses its fraction and is cut off at the greatest position. -/
lemma toIndex_of_unpack {hm : 0 < m} (h : x.toModel.unpack = .finite .positive m e hm) :
    toIndex x = min ((Binary.mk m e).quotient.1 / (Binary.mk m e).quotient.2) (2 ^ 64 - 1) := by
  show (UnpackedFloat.toUInt64 x.toModel.unpack).toNat = _
  rw [h]
  simp only [UnpackedFloat.toUInt64, toInt, roundToInt_positive, Int.toNat_natCast,
    UInt64.ofNatClamp, UInt64.size]
  split_ifs with h
  · rw [Nat.min_eq_left (by omega)]
    rfl
  · rw [Nat.min_eq_right (by omega)]
    rfl

lemma toIndex_toFloat (h : n < 2 ^ 53) : toIndex n.toUInt64.toFloat = n := by
  obtain rfl | hn := Nat.eq_zero_or_pos n
  · decide
  · rw [toIndex_of_unpack (unpack_toFloat hn h), quotient_filled hn h,
      Nat.mul_div_cancel _ (Nat.two_pow_pos _)]
    omega

end LiveMarkup.Decimal
