import Mathlib
import Nodeflow.Proofs.Number.Finite

/-!
# Comparing doubles

Comparisons of doubles look at nothing but sign and magnitude: a double that is a
number is placed by its magnitude, counted downwards under a minus sign, and one that
is no number compares with nothing.  Both zeros have the same place.
-/

namespace Nodeflow

open Float.Model UnpackedFloat

/-! ## Signs and magnitudes in the bits -/

def signOf (negative : Bool) : Sign :=
  if negative then .negative else .positive

theorem unpackMantissa_toNat (b : BitVec Format.binary64.numBits) :
    (unpackMantissa b).toNat = b.toNat % 2 ^ 52 := by
  simp [unpackMantissa]

theorem unpackSign_toNat (b : BitVec Format.binary64.numBits) :
    (unpackSign b).toNat = b.toNat / 2 ^ 63 % 2 := by
  simp [unpackSign, Nat.shiftRight_eq_div_pow]

theorem ofBitVec_unpackSign (b : BitVec Format.binary64.numBits) :
    Sign.ofBitVec (unpackSign b) = signOf (doubleSign ≤ b.toNat) := by
  have hsign : doubleSign = 2 ^ 63 := rfl
  have hlt : b.toNat < 2 ^ 64 := b.isLt
  have hzero : unpackSign b = 0#1 ↔ ¬ doubleSign ≤ b.toNat := by
    rw [← BitVec.toNat_inj, unpackSign_toNat, hsign]
    change b.toNat / 2 ^ 63 % 2 = 0 ↔ _
    omega
  by_cases h : doubleSign ≤ b.toNat
  · rw [Sign.ofBitVec, if_neg (by rw [hzero]; exact not_not_intro h), decide_eq_true h]
    rfl
  · rw [Sign.ofBitVec, if_pos (hzero.2 h), decide_eq_false h]
    rfl

theorem toNat_append_eq {m n : Nat} (v : BitVec m) (w : BitVec n) :
    (v ++ w).toNat = v.toNat * 2 ^ n + w.toNat := by
  rw [BitVec.toNat_append, ← Nat.shiftLeft_add_eq_or_of_lt w.isLt, Nat.shiftLeft_eq]

inductive Unpacks (negative : Bool) : Nat → UnpackedFloat → Prop
  | zero : Unpacks negative 0 (.zero (signOf negative))
  | finite {magnitude : Nat} (hpos : 0 < magnitude) (hlt : magnitude < binary64.infinity)
      (hsignificand : 0 < (binary64.split magnitude).1) :
      Unpacks negative magnitude (.finite (signOf negative) (binary64.split magnitude).1
        (binary64.split magnitude).2 hsignificand)
  | infinity : Unpacks negative binary64.infinity (.infinity (signOf negative))

theorem Unpacks.of_split {negative : Bool} {magnitude significand : Nat} {exponent : Int}
    (hpos : 0 < magnitude) (hlt : magnitude < binary64.infinity) (hsignificand : 0 < significand)
    (h : binary64.split magnitude = (significand, exponent)) :
    Unpacks negative magnitude (.finite (signOf negative) significand exponent hsignificand) := by
  obtain rfl : (binary64.split magnitude).1 = significand := by rw [h]
  obtain rfl : (binary64.split magnitude).2 = exponent := by rw [h]
  exact .finite hpos hlt hsignificand

theorem unpacks {b : BitVec Format.binary64.numBits}
    (h : b.toNat % doubleSign ≤ binary64.infinity) :
    Unpacks (doubleSign ≤ b.toNat) (b.toNat % doubleSign)
      (UnpackedFloat.unpack Format.binary64 b) := by
  have hbit : binary64.leadingBit = 2 ^ 52 := rfl
  have htop : binary64.infinity = 2047 * 2 ^ 52 := rfl
  have hleast : binary64.leastExponent = -1074 := rfl
  have hsign : doubleSign = 2 ^ 63 := rfl
  have hbias : ((Format.binary64.exponentBias : Nat) : Int) = 1023 := rfl
  have hfraction : ((Format.binary64.mantissaBitsWithoutImplicit : Nat) : Int) = 52 := rfl
  have hfield := exponentField_eq b
  have hmantissa := unpackMantissa_toNat b
  rw [exponentField] at hfield
  have hones : unpackExponent b = -1#_ ↔ (unpackExponent b).toNat = 2047 := by
    rw [← BitVec.toNat_inj]
    rfl
  have hnone : unpackExponent b = 0#_ ↔ (unpackExponent b).toNat = 0 := by
    rw [← BitVec.toNat_inj]
    rfl
  have hempty : unpackMantissa b = 0#_ ↔ (unpackMantissa b).toNat = 0 := by
    rw [← BitVec.toNat_inj]
    rfl
  simp only [UnpackedFloat.unpack, ofBitVec_unpackSign, hones, hnone, hempty]
  generalize decide (doubleSign ≤ b.toNat) = negative
  rw [hsign, htop] at h
  rw [hsign]
  split
  · have hmagnitude : b.toNat % 2 ^ 63 = binary64.infinity := by
      rw [htop]
      omega
    rw [hmagnitude, if_pos (by omega)]
    exact .infinity
  · split
    · have hmagnitude : b.toNat % 2 ^ 63 = (unpackMantissa b).toNat := by omega
      rw [hmagnitude]
      split
      · rename_i hzero
        rw [hzero]
        exact .zero
      · refine .of_split (by omega) (by rw [htop]; omega) _ ?_
        rw [BinaryFormat.split, hbit, if_pos (by omega), hleast]
        refine Prod.ext rfl ?_
        omega
    · refine .of_split (by omega) (by rw [htop]; omega) _ ?_
      rw [BinaryFormat.split, hbit, if_neg (by omega), hleast]
      refine Prod.ext ?_ ?_
      · change b.toNat % 2 ^ 63 % 2 ^ 52 + 2 ^ 52 = _
        rw [toNat_append_eq, hmantissa]
        change _ = 1 * 2 ^ 52 + b.toNat % 2 ^ 52
        omega
      · omega

theorem Unpacks.isNaN {negative : Bool} {magnitude : Nat} {u : UnpackedFloat}
    (h : Unpacks negative magnitude u) : u.isNaN = false := by
  cases h <;> rfl

theorem unpack_beyond {b : BitVec Format.binary64.numBits}
    (h : binary64.infinity < b.toNat % doubleSign) :
    UnpackedFloat.unpack Format.binary64 b = .notANumber := by
  have hsign : doubleSign = 2 ^ 63 := rfl
  have htop : binary64.infinity = 2047 * 2 ^ 52 := rfl
  have hfield := exponentField_eq b
  have hmantissa := unpackMantissa_toNat b
  rw [exponentField] at hfield
  rw [hsign, htop] at h
  have hones : unpackExponent b = -1#_ := by
    refine BitVec.toNat_inj.1 ?_
    change _ = 2047
    omega
  have hpayload : unpackMantissa b ≠ 0#_ := by
    intro hzero
    have hempty : (unpackMantissa b).toNat = 0 := congrArg BitVec.toNat hzero
    omega
  simp only [UnpackedFloat.unpack, if_pos hones, if_neg hpayload]

/-! ## Packing them again -/

theorem packComponents_toNat (negative : Bool) (e : BitVec Format.binary64.exponentBits)
    (m : BitVec Format.binary64.mantissaBitsWithoutImplicit) :
    (packComponents Format.binary64 (signOf negative) e m).toNat =
      e.toNat * 2 ^ 52 + m.toNat + if negative then doubleSign else 0 := by
  rw [packComponents, toNat_append_eq, toNat_append_eq]
  cases negative with
  | true =>
      change (1 * 2 ^ 11 + e.toNat) * 2 ^ 52 + m.toNat = _ + 2 ^ 63
      omega
  | false =>
      change (0 * 2 ^ 11 + e.toNat) * 2 ^ 52 + m.toNat = _ + 0
      omega

theorem pack_of_unpacks {negative : Bool} {magnitude : Nat} {u : UnpackedFloat}
    (h : Unpacks negative magnitude u) :
    (UnpackedFloat.pack Format.binary64 u).toNat =
      magnitude + if negative then doubleSign else 0 := by
  have hbit : binary64.leadingBit = 2 ^ 52 := rfl
  have htop : binary64.infinity = 2047 * 2 ^ 52 := rfl
  have hleast : binary64.leastExponent = -1074 := rfl
  have hbits : Format.binary64.mantissaBits = 53 := rfl
  have hones : 2 ^ Format.binary64.exponentBits = 2048 := rfl
  have hbias : ∀ e : Int, e + (Format.binary64.exponentBias : Int) +
      Format.binary64.mantissaBitsWithoutImplicit = e + 1075 := by
    intro e
    rw [add_assoc]
    rfl
  cases h with
  | zero =>
      rw [UnpackedFloat.pack, packedZero, packComponents_toNat]
      rfl
  | finite hpos hlt hsignificand =>
      rw [htop] at hlt
      simp only [UnpackedFloat.pack, hbits, hones, hbias]
      by_cases hfield : magnitude / 2 ^ 52 = 0
      · have hsplit : binary64.split magnitude = (magnitude, -1074) := by
          rw [BinaryFormat.split, hbit, if_pos hfield, hleast]
        have hlog : magnitude.log2 < 52 := (Nat.log2_lt (by omega)).2 (by omega)
        have hfraction : (BitVec.ofNat 52 magnitude).toNat = magnitude :=
          Nat.mod_eq_of_lt (by omega)
        simp only [hsplit]
        rw [if_neg (by omega), if_neg (by omega), packComponents_toNat, hfraction]
        simp
      · have hsplit : binary64.split magnitude = (magnitude % 2 ^ 52 + 2 ^ 52,
            (-1074 : Int) + (magnitude / 2 ^ 52 - 1 : Nat)) := by
          rw [BinaryFormat.split, hbit, if_neg hfield, hleast]
        have hlow : 52 ≤ (magnitude % 2 ^ 52 + 2 ^ 52).log2 :=
          (Nat.le_log2 (by omega)).2 (by omega)
        have hhigh : (magnitude % 2 ^ 52 + 2 ^ 52).log2 < 53 :=
          (Nat.log2_lt (by omega)).2 (by omega)
        have hfraction : (BitVec.ofNat 52 (magnitude % 2 ^ 52 + 2 ^ 52)).toNat =
            magnitude % 2 ^ 52 := by
          rw [BitVec.toNat_ofNat]
          omega
        have hexponent :
            (BitVec.ofNat 11 (-1074 + (magnitude / 2 ^ 52 - 1 : Nat) + 1075 : Int).toNat).toNat =
              magnitude / 2 ^ 52 := by
          rw [BitVec.toNat_ofNat]
          omega
        simp only [hsplit]
        rw [if_neg (by omega), if_pos (by omega), packComponents_toNat, hfraction, hexponent]
        omega
  | infinity =>
      rw [UnpackedFloat.pack, packedInfinity, packComponents_toNat]
      rfl

theorem toBits_ofBits {w : UInt64} (h : w.toNat % doubleSign ≤ binary64.infinity) :
    (Float.ofBits w).toBits = w := by
  have hsign : doubleSign = 2 ^ 63 := rfl
  have hlt : w.toNat < 2 ^ 64 := w.toNat_lt
  have hpack := pack_of_unpacks (unpacks (b := w.toBitVec) h)
  have hbits : w.toBitVec.toNat = w.toNat := rfl
  refine UInt64.toBitVec_inj.1 (BitVec.toNat_inj.1 (hpack.trans ?_))
  rw [hbits, hsign]
  by_cases hnegative : 2 ^ 63 ≤ w.toNat
  · simp only [hnegative, decide_true, if_true]
    omega
  · simp only [hnegative, decide_false, Bool.false_eq_true, if_false]
    omega

theorem doubleParts_doubleOf (negative : Bool) {magnitude : Nat}
    (h : magnitude ≤ binary64.infinity) :
    doubleParts (doubleOf negative magnitude) = (negative, magnitude) := by
  have hsign : doubleSign = 2 ^ 63 := rfl
  have htop : binary64.infinity = 2047 * 2 ^ 52 := rfl
  rw [htop] at h
  have hword : (UInt64.ofNat (magnitude + if negative then doubleSign else 0)).toNat =
      magnitude + if negative then doubleSign else 0 := by
    refine UInt64.toNat_ofNat_of_lt' ?_
    rw [UInt64.size, hsign]
    split <;> omega
  have hmod : (magnitude + if negative then doubleSign else 0) % doubleSign = magnitude := by
    rw [hsign]
    split <;> omega
  have hbits : (doubleOf negative magnitude).toBits =
      UInt64.ofNat (magnitude + if negative then doubleSign else 0) := by
    refine toBits_ofBits ?_
    rw [hword, hmod]
    exact h
  rw [doubleParts, hbits, hword, hmod, hsign]
  cases negative with
  | true => simp
  | false => simp; omega

/-! ## Comparing unpacked numbers -/

def placeOf (negative : Bool) (magnitude : Nat) : Int :=
  if negative then -magnitude else magnitude

theorem placeOf_true (magnitude : Nat) : placeOf true magnitude = -magnitude := rfl

theorem placeOf_false (magnitude : Nat) : placeOf false magnitude = magnitude := rfl

theorem split_lt {m n : Nat} (h : m < n) :
    (binary64.split m).2 < (binary64.split n).2 ∨
      (binary64.split m).2 = (binary64.split n).2 ∧
        (binary64.split m).1 < (binary64.split n).1 := by
  have hbit : binary64.leadingBit = 2 ^ 52 := rfl
  simp only [BinaryFormat.split, hbit]
  split <;> split <;> dsimp only <;> omega

theorem compare_split (m n : Nat) :
    (compare (binary64.split m).2 (binary64.split n).2).then
      (compare (binary64.split m).1 (binary64.split n).1) = compare m n := by
  rcases lt_trichotomy m n with h | rfl | h
  · rw [Nat.compare_eq_lt.2 h, Ordering.then_eq_lt, compare_lt_iff_lt, compare_eq_iff_eq,
      compare_lt_iff_lt]
    exact split_lt h
  · simp
  · rw [Nat.compare_eq_gt.2 h, Ordering.then_eq_gt, compare_gt_iff_gt, compare_eq_iff_eq,
      compare_gt_iff_gt]
    exact (split_lt h).imp id fun ⟨he, hs⟩ => ⟨he.symm, hs⟩

theorem compare_natCast (m n : Nat) : compare (m : Int) n = compare m n := by
  rcases lt_trichotomy m n with h | rfl | h
  · rw [Nat.compare_eq_lt.2 h, compare_lt_iff_lt.2 (by omega)]
  · simp
  · rw [Nat.compare_eq_gt.2 h, compare_gt_iff_gt.2 (by omega)]

theorem compare_neg_natCast (m n : Nat) : compare (-m : Int) (-n) = (compare m n).swap := by
  rcases lt_trichotomy m n with h | rfl | h
  · rw [Nat.compare_eq_lt.2 h, compare_gt_iff_gt.2 (by omega), Ordering.swap]
  · simp
  · rw [Nat.compare_eq_gt.2 h, compare_lt_iff_lt.2 (by omega), Ordering.swap]

theorem compare_of_unpacks {s t : Bool} {m n : Nat} {u v : UnpackedFloat}
    (hu : Unpacks s m u) (hv : Unpacks t n v) :
    u.compare v = some (compare (placeOf s m) (placeOf t n)) := by
  have htop : binary64.infinity = 2047 * 2 ^ 52 := rfl
  have hlt : ∀ {a b : Int}, a < b → some Ordering.lt = some (compare a b) := by
    intro a b h
    rw [compare_lt_iff_lt.2 h]
  have hgt : ∀ {a b : Int}, b < a → some Ordering.gt = some (compare a b) := by
    intro a b h
    rw [compare_gt_iff_gt.2 h]
  cases hu <;> cases hv <;> cases s <;> cases t
  case finite.finite.true.true =>
    rw [placeOf_true, placeOf_true, compare_neg_natCast, ← compare_split]
    rfl
  case finite.finite.false.false =>
    rw [placeOf_false, placeOf_false, compare_natCast, ← compare_split]
    rfl
  all_goals
    first
    | exact hlt (by simp only [placeOf_true, placeOf_false]; omega)
    | exact hgt (by simp only [placeOf_true, placeOf_false]; omega)
    | rfl

/-! ## Comparing doubles -/

def place (x : Float) : Int :=
  placeOf (doubleParts x).1 (doubleParts x).2

theorem unpacks_of_isNumber {x : Float} (h : (doubleParts x).2 ≤ binary64.infinity) :
    Unpacks (doubleParts x).1 (doubleParts x).2 x.toModel.unpack :=
  unpacks h

theorem isNaN_eq_false_iff {x : Float} :
    x.isNaN = false ↔ (doubleParts x).2 ≤ binary64.infinity := by
  constructor
  · intro h
    by_contra hbeyond
    have hunpack : x.toModel.unpack = .notANumber := unpack_beyond (Nat.not_le.1 hbeyond)
    change x.toModel.unpack.isNaN = false at h
    rw [hunpack] at h
    exact absurd h (by decide)
  · exact fun h => (unpacks_of_isNumber h).isNaN

theorem compare_toModel {x y : Float} (hx : x.isNaN = false) (hy : y.isNaN = false) :
    x.toModel.compare y.toModel = some (compare (place x) (place y)) :=
  compare_of_unpacks (unpacks (isNaN_eq_false_iff.1 hx)) (unpacks (isNaN_eq_false_iff.1 hy))

theorem lt_iff_place {x y : Float} (hx : x.isNaN = false) (hy : y.isNaN = false) :
    x < y ↔ place x < place y := by
  have hmodel : x < y ↔ (x.toModel.compare y.toModel == some .lt) = true := decide_eq_true_iff
  rw [hmodel, compare_toModel hx hy, beq_iff_eq, Option.some.injEq, compare_lt_iff_lt]

theorem beq_iff_place {x y : Float} (hx : x.isNaN = false) (hy : y.isNaN = false) :
    (x == y) = true ↔ place x = place y := by
  change (x.toModel.compare y.toModel == some .eq) = true ↔ _
  rw [compare_toModel hx hy, beq_iff_eq, Option.some.injEq, compare_eq_iff_eq]

theorem compare_notANumber_right (u : UnpackedFloat) : u.compare .notANumber = none := by
  cases u <;> rfl

theorem unpack_of_isNaN {x : Float} (h : x.isNaN = true) : x.toModel.unpack = .notANumber := by
  change x.toModel.unpack.isNaN = true at h
  cases hunpack : x.toModel.unpack with
  | notANumber => rfl
  | _ => rw [hunpack] at h; cases h

theorem beq_of_isNaN_left {x y : Float} (h : x.isNaN = true) : (x == y) = false := by
  change (x.toModel.unpack.compare y.toModel.unpack == some .eq) = false
  rw [unpack_of_isNaN h]
  rfl

theorem beq_of_isNaN_right {x y : Float} (h : y.isNaN = true) : (x == y) = false := by
  change (x.toModel.unpack.compare y.toModel.unpack == some .eq) = false
  rw [unpack_of_isNaN h, compare_notANumber_right]
  rfl

end Nodeflow
