import Mathlib
import Nodeflow.Json.Number

/-!
# Finite products of doubles

How large a double is can be told from its exponent field alone, far more coarsely than
by its value.  A product of doubles with small fields is finite: rounding moves the
exponent by no more than the bits of the two significands.  That is enough for the
reader of numerals, which scales a rounded 64-bit integer by a power of ten.
-/

namespace Nodeflow

open Float.Model UnpackedFloat

/-! ## Exponent fields -/

def exponentField (b : BitVec Format.binary64.numBits) : Nat :=
  (@unpackExponent Format.binary64 b).toNat

theorem exponentField_eq (b : BitVec Format.binary64.numBits) :
    exponentField b = b.toNat / 2 ^ 52 % 2 ^ 11 := by
  simp [exponentField, unpackExponent, Nat.shiftRight_eq_div_pow]

theorem isFinite_unpack (spec : Format) (b : BitVec spec.numBits) :
    (UnpackedFloat.unpack spec b).isFinite = true ↔ unpackExponent b ≠ -1#_ := by
  simp only [UnpackedFloat.unpack]
  split
  · split <;> simp_all [UnpackedFloat.isFinite]
  · split
    · split <;> simp_all [UnpackedFloat.isFinite]
    · simp_all [UnpackedFloat.isFinite]

theorem isFinite_unpack_of_field {b : BitVec Format.binary64.numBits} (h : exponentField b < 2047) :
    (UnpackedFloat.unpack Format.binary64 b).isFinite = true := by
  rw [isFinite_unpack]
  intro hones
  rw [exponentField, hones] at h
  exact absurd h (by decide)

/-- A number that a product can be taken of: zero, or finite with a significand of 53
bits and an exponent of at most `bound`. -/
inductive Below (bound : Int) : UnpackedFloat → Prop
  | zero (s : Sign) : Below bound (.zero s)
  | finite (s : Sign) (m : Nat) (e : Int) (hm : 0 < m) (hlt : m < 2 ^ 53) (he : e ≤ bound) :
      Below bound (.finite s m e hm)

theorem below_unpack {b : BitVec Format.binary64.numBits} {field : Nat}
    (hb : exponentField b ≤ field) (hpos : 0 < field) (htop : field < 2047) :
    Below (field - 1075) (UnpackedFloat.unpack Format.binary64 b) := by
  have hones : unpackExponent b ≠ -1#_ :=
    (isFinite_unpack _ b).1 (isFinite_unpack_of_field (hb.trans_lt htop))
  have hbias : (Format.binary64.exponentBias : Int) + Format.binary64.mantissaBitsWithoutImplicit =
      1075 := rfl
  rw [exponentField] at hb
  simp only [UnpackedFloat.unpack, if_neg hones, hbias]
  split
  · split
    · exact .zero _
    · rename_i hzero _
      refine .finite _ _ _ _ ((unpackMantissa b).isLt.trans (by decide)) ?_
      rw [hzero]
      simp only [BitVec.toNat_ofNat, Nat.zero_mod]
      omega
  · exact .finite _ _ _ _ (BitVec.isLt _) (by omega)

theorem exponentField_pack_finite {s : Sign} {m : Nat} {e : Int} (hm : 0 < m) (he : e ≤ 900) :
    exponentField (UnpackedFloat.pack Format.binary64 (.finite s m e hm)) ≤ (e + 1075).toNat := by
  have hbias : e + (Format.binary64.exponentBias : Int) +
      Format.binary64.mantissaBitsWithoutImplicit = e + 1075 := by
    rw [add_assoc]; rfl
  have hfits : ¬ 2 ^ Format.binary64.exponentBits ≤ (e + 1075).toNat + 1 := by
    rw [show 2 ^ Format.binary64.exponentBits = 2048 from rfl]
    omega
  simp only [exponentField, UnpackedFloat.pack, hbias, if_neg hfits]
  split
  · rw [unpackExponent_packComponents, BitVec.toNat_ofNat]
    exact Nat.mod_le _ _
  · rw [unpackExponent_packComponents]
    exact Nat.zero_le _

theorem exponentField_pack_zero (s : Sign) :
    exponentField (UnpackedFloat.pack Format.binary64 (.zero s)) = 0 := by
  simp only [exponentField, UnpackedFloat.pack, packedZero]
  rw [unpackExponent_packComponents]
  rfl

/-! ## Rounding -/

theorem shiftRight_mantissa_le (em : ExtendedMantissa) (n : Nat) :
    (em >>> n).mantissa ≤ em.mantissa := by
  induction n with
  | zero => exact le_rfl
  | succ n ih => exact (Nat.div_le_self _ 2).trans ih

theorem roundedMantissa_le (em : ExtendedMantissa) : em.roundedMantissa ≤ em.mantissa + 1 := by
  rw [ExtendedMantissa.roundedMantissa]
  cases em.accuracy with
  | exact => exact Nat.le_succ _
  | inexact order => cases order <;> simp [Accuracy.roundToNearestEven]; omega

theorem ofMantissaAndAccuracy_mantissa (m : Nat) (a : Accuracy) :
    (ExtendedMantissa.ofMantissaAndAccuracy m a).mantissa = m := by
  cases a with
  | exact => rfl
  | inexact order => cases order <;> rfl

theorem shiftToTargetExponent_mantissa_le (m : Nat) (e : Int) (a : Accuracy) :
    (shiftToTargetExponent Format.binary64 m e a).1.mantissa ≤ m :=
  (shiftRight_mantissa_le _ _).trans_eq (ofMantissaAndAccuracy_mantissa m a)

theorem shiftToTargetExponent_exponent (m : Nat) (e : Int) (a : Accuracy) :
    (shiftToTargetExponent Format.binary64 m e a).2 =
      max e (max (m.log2 + 1 + e - 53) (-1074)) := by
  simp only [shiftToTargetExponent, shiftToExponent, Format.targetExponent, totalExponent]
  have hbits : (Format.binary64.mantissaBits : Int) = 53 := rfl
  have hleast : Format.binary64.minExponent = -1074 := rfl
  rw [hbits, hleast]
  omega

theorem exponent_rounded_le {m : Nat} (hm : m < 2 ^ 106) (e : Int) :
    let first := shiftToTargetExponent Format.binary64 m e .exact
    (shiftToTargetExponent Format.binary64 first.1.roundedMantissa first.2 .exact).2 ≤
      max e (-1074) + 108 := by
  intro first
  have hlog : ∀ n, n ≤ 2 ^ 106 → n.log2 ≤ 106 := by
    intro n hn
    rcases Nat.eq_zero_or_pos n with rfl | hpos
    · decide
    · exact Nat.le_of_lt_succ ((Nat.log2_lt hpos.ne').2 (hn.trans_lt (by norm_num)))
  have hrounded := roundedMantissa_le first.1
  have hshifted : first.1.mantissa ≤ m := shiftToTargetExponent_mantissa_le m e .exact
  have hfirst := hlog m hm.le
  have hsecond := hlog first.1.roundedMantissa
    (hrounded.trans ((Nat.succ_le_succ hshifted).trans hm))
  have hexp : first.2 = max e (max (m.log2 + 1 + e - 53) (-1074)) :=
    shiftToTargetExponent_exponent m e .exact
  rw [shiftToTargetExponent_exponent, hexp]
  omega

theorem exponentField_rounded {s : Sign} {m : Nat} {e : Int} (hm : m < 2 ^ 106)
    (he : e ≤ 500) :
    exponentField (UnpackedFloat.pack Format.binary64
      (roundWithAccuracy Format.binary64 s m e .exact)) < 2047 := by
  have hexp := exponent_rounded_le hm e
  simp only [roundWithAccuracy]
  split
  · rw [exponentField_pack_zero]
    decide
  · rename_i hne
    have hfield := exponentField_pack_finite (s := s) (Nat.pos_of_ne_zero hne)
      (show _ ≤ 900 from hexp.trans (by omega))
    omega

theorem isFinite_mul {x y : Float} {a b : Int} (hx : Below a x.toModel.unpack)
    (hy : Below b y.toModel.unpack) (hsum : a + b ≤ 500) : (x * y).isFinite = true := by
  change (UnpackedFloat.unpack Format.binary64 (UnpackedFloat.pack Format.binary64
    (UnpackedFloat.mul Format.binary64 x.toModel.unpack y.toModel.unpack))).isFinite = true
  generalize x.toModel.unpack = u at hx ⊢
  generalize y.toModel.unpack = v at hy ⊢
  refine isFinite_unpack_of_field ?_
  have hzero : ∀ s, exponentField (UnpackedFloat.pack Format.binary64 (.zero s)) < 2047 := by
    intro s
    rw [exponentField_pack_zero]
    decide
  cases hx with
  | zero s => cases hy <;> exact hzero _
  | finite s m e hm hlt he =>
      cases hy with
      | zero s' => exact hzero _
      | finite s' m' e' hm' hlt' he' =>
          have hprod : m * m' < 2 ^ 106 := (Nat.mul_lt_mul'' hlt hlt').trans_eq (by norm_num)
          exact exponentField_rounded hprod (by omega)

/-! ## Scaling a whole number -/

theorem below_pack {u : UnpackedFloat} {field : Nat} (hu : Below (field - 1075) u)
    (hpos : 0 < field) (htop : field < 1900) :
    Below (field - 1075)
      (UnpackedFloat.unpack Format.binary64 (UnpackedFloat.pack Format.binary64 u)) := by
  refine below_unpack ?_ hpos (by omega)
  cases hu with
  | zero s =>
      rw [exponentField_pack_zero]
      exact Nat.zero_le _
  | finite s m e hm hlt he =>
      have := exponentField_pack_finite (s := s) hm (show e ≤ 900 by omega)
      omega

theorem below_doubleOf {magnitude field : Nat} (h : magnitude < (field + 1) * 2 ^ 52)
    (hpos : 0 < field) (htop : field < 1900) :
    Below (field - 1075) (doubleOf false magnitude).toModel.unpack := by
  refine below_pack (below_unpack ?_ hpos (by omega)) hpos htop
  rw [exponentField_eq]
  have hbits : (UInt64.ofNat (magnitude + if false then doubleSign else 0)).toBitVec.toNat =
      magnitude := by
    simp only [Bool.false_eq_true, if_false, Nat.add_zero, UInt64.toNat_toBitVec]
    exact UInt64.toNat_ofNat_of_lt' (h.trans (by rw [UInt64.size]; omega))
  rw [hbits]
  exact (Nat.mod_le _ _).trans (Nat.le_of_lt_succ (Nat.div_lt_of_lt_mul (by omega)))

theorem roundHalfEven_le (num den : Nat) : roundHalfEven num den ≤ num / den + 1 := by
  simp only [roundHalfEven]
  split <;> omega

theorem unitExponent_whole {n : Nat} (hn : n.log2 < 64) :
    (n.log2 : Int) - 53 ≤ binary64.unitExponent n 1 ∧
      binary64.unitExponent n 1 ≤ (n.log2 : Int) - 52 := by
  have hone : Nat.log2 1 = 0 := by decide
  have hbits : binary64.fractionBits = 52 := rfl
  have hleast : binary64.leastExponent = -1074 := rfl
  simp only [BinaryFormat.unitExponent, hone, hbits, hleast]
  split <;> omega

theorem scaleRatio_whole_lt {n : Nat} {e : Int} (he : (n.log2 : Int) - 53 ≤ e) :
    (scaleRatio n 1 e).1 / (scaleRatio n 1 e).2 < 2 ^ 54 := by
  have hn : n < 2 ^ (n.log2 + 1) := Nat.lt_log2_self
  cases e with
  | ofNat k =>
      have hpow : 2 ^ (n.log2 + 1) ≤ 2 ^ (k + 54) :=
        Nat.pow_le_pow_right (by decide) (by rw [Int.ofNat_eq_natCast] at he; omega)
      simp only [scaleRatio, Nat.one_mul]
      refine Nat.div_lt_of_lt_mul (hn.trans_le (hpow.trans_eq ?_))
      exact Nat.pow_add 2 k 54
  | negSucc k =>
      have hpow : 2 ^ (n.log2 + 1 + (k + 1)) ≤ 2 ^ 54 :=
        Nat.pow_le_pow_right (by decide) (by omega)
      simp only [scaleRatio, Nat.div_one]
      calc n * Nat.pow 2 (k + 1) < 2 ^ (n.log2 + 1) * 2 ^ (k + 1) :=
            Nat.mul_lt_mul_of_pos_right hn (Nat.two_pow_pos _)
        _ = 2 ^ (n.log2 + 1 + (k + 1)) := (Nat.pow_add 2 _ _).symm
        _ ≤ 2 ^ 54 := hpow

theorem nearest_whole_lt {n : Nat} (hn : n < UInt64.size) :
    binary64.nearest n 1 < 1090 * 2 ^ 52 := by
  have hbit : binary64.leadingBit = 2 ^ 52 := rfl
  have hleast : binary64.leastExponent = -1074 := rfl
  rw [BinaryFormat.nearest]
  split
  · decide
  · rename_i hne
    have hlog : n.log2 < 64 := (Nat.log2_lt hne).2 hn
    obtain ⟨hlow, hhigh⟩ := unitExponent_whole hlog
    have hratio := scaleRatio_whole_lt hlow
    have hround := roundHalfEven_le (scaleRatio n 1 (binary64.unitExponent n 1)).1
      (scaleRatio n 1 (binary64.unitExponent n 1)).2
    refine (min_le_left _ _).trans_lt ?_
    rw [hbit, hleast]
    have hraised : (binary64.unitExponent n 1 - -1074).toNat ≤ 1085 := by omega
    have hscaled := Nat.mul_le_mul_right (2 ^ 52) hraised
    omega

theorem below_powerOfTen {k : Nat} (hk : k ≤ 40) :
    Below (1200 - 1075) (Numeral.powerOfTen k).toModel.unpack := by
  have hall : ∀ k : Nat, k < 41 → binary64.ofDecimal 1 k < (1200 + 1) * 2 ^ 52 := by
    decide +kernel
  exact below_doubleOf (hall k (Nat.lt_succ_of_le hk)) (by decide) (by decide)

theorem isFinite_scaled {n k : Nat} (hn : n < UInt64.size) (hk : k ≤ 40) :
    (doubleOfInt n * Numeral.powerOfTen k).isFinite = true := by
  have hwhole : Below ((1089 : Nat) - 1075) (doubleOfInt n).toModel.unpack := by
    have hsign : decide ((n : Int) < 0) = false := by simp
    rw [doubleOfInt, hsign, Int.natAbs_natCast]
    exact below_doubleOf (nearest_whole_lt hn) (by decide) (by decide)
  exact isFinite_mul hwhole (below_powerOfTen hk) (by decide)

end Nodeflow
