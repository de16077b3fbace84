import Nodeflow.Proofs.Number.Order
import Nodeflow.Proofs.Number.Rounding

/-!
# Floats in their bits

What the bits of a float hold is canonical, and a canonical float comes back from its bits
unless its exponent is too large for them: then they hold an infinity of its sign.
-/

namespace Nodeflow

open Float.Model UnpackedFloat

variable {f : Format}

/-! ## Fields -/

@[simp] theorem unpackSign_packComponents (s : Sign) (e : BitVec f.exponentBits)
    (m : BitVec f.mantissaBitsWithoutImplicit) :
    Sign.ofBitVec (unpackSign (packComponents f s e m)) = s := by
  have hbits : unpackSign (packComponents f s e m) = s.toBitVec := by
    ext i hi
    obtain rfl : i = 0 := by omega
    simp [unpackSign, packComponents, BitVec.getLsbD_append, BitVec.getElem_append]
  rw [hbits]
  cases s <;> rfl

theorem minExponent_eq : f.minExponent = 1 - (f.exponentBias + f.mantissaBitsWithoutImplicit) := by
  have hpos : 1 ≤ 2 ^ (f.exponentBits - 1) := Nat.one_le_two_pow
  unfold Format.minExponent Format.exponentBias Format.mantissaBits
  push_cast [hpos]
  ring

theorem implicit_append (m : BitVec f.mantissaBitsWithoutImplicit) :
    (1#1 ++ m).toNat = 2 ^ f.mantissaBitsWithoutImplicit + m.toNat := by
  rw [toNat_append_eq, BitVec.toNat_ofNat, Nat.mod_eq_of_lt (by decide), one_mul]

theorem toNat_ne_zero {n : ℕ} {b : BitVec n} (h : b ≠ 0#n) : b.toNat ≠ 0 :=
  fun hzero => h (BitVec.eq_of_toNat_eq (by simpa using hzero))

theorem eq_ones_iff {n : ℕ} {b : BitVec n} : b = -1#n ↔ b.toNat = 2 ^ n - 1 := by
  rw [← BitVec.toNat_inj, BitVec.neg_one_eq_allOnes, BitVec.toNat_allOnes]

theorem canonical_finite_iff {s : Sign} {m : ℕ} {e : ℤ} {hm : 0 < m} :
    Canonical f (.finite s m e hm) ↔
      m.log2 = f.mantissaBitsWithoutImplicit ∧ f.minExponent ≤ e ∨
        m.log2 < f.mantissaBitsWithoutImplicit ∧ e = f.minExponent := by
  simp only [Canonical, Format.targetExponent, totalExponent, Format.mantissaBits]
  omega

/-! ## Unpacking -/

variable (f) in
def InRange : UnpackedFloat → Prop
  | .finite _ _ e _ =>
      (e + f.exponentBias + f.mantissaBitsWithoutImplicit).toNat + 1 < 2 ^ f.exponentBits
  | _ => True

theorem canonical_unpack (b : BitVec f.numBits) : Canonical f (UnpackedFloat.unpack f b) := by
  simp only [UnpackedFloat.unpack]
  split
  · split <;> trivial
  · split
    · split
      · trivial
      · rename_i hzero hfraction
        refine canonical_finite_iff.2 (.inr ⟨?_, ?_⟩)
        · rw [Nat.log2_lt (toNat_ne_zero hfraction)]
          exact BitVec.isLt _
        · rw [hzero, minExponent_eq, BitVec.toNat_ofNat, Nat.zero_mod]
          omega
    · rename_i hzero
      refine canonical_finite_iff.2 (.inl ⟨?_, ?_⟩)
      · rw [implicit_append, Nat.log2_eq_iff (by positivity)]
        have := (unpackMantissa b).isLt
        omega
      · rw [minExponent_eq]
        have := toNat_ne_zero hzero
        omega

theorem inRange_unpack (hf : 1 < f.exponentBits) (b : BitVec f.numBits) :
    InRange f (UnpackedFloat.unpack f b) := by
  have hlt := (unpackExponent b).isLt
  simp only [UnpackedFloat.unpack]
  split
  · split <;> trivial
  · rename_i hones
    rw [eq_ones_iff] at hones
    split
    · split
      · trivial
      · rename_i hzero _
        have hroom : 2 ^ 2 ≤ 2 ^ f.exponentBits := Nat.pow_le_pow_right two_pos hf
        simp only [InRange, hzero, BitVec.toNat_ofNat, Nat.zero_mod]
        omega
    · simp only [InRange]
      omega

/-! ## Packing -/

theorem unpack_pack_zero (s : Sign) :
    UnpackedFloat.unpack f (UnpackedFloat.pack f (.zero s)) = .zero s := by
  simp [UnpackedFloat.pack, packedZero, UnpackedFloat.unpack, f.he.ne']

theorem unpack_pack_finite {s : Sign} {m : ℕ} {e : ℤ} {hm : 0 < m}
    (hc : Canonical f (.finite s m e hm)) (hr : InRange f (.finite s m e hm)) :
    UnpackedFloat.unpack f (UnpackedFloat.pack f (.finite s m e hm)) = .finite s m e hm := by
  have hbits : f.mantissaBits = f.mantissaBitsWithoutImplicit + 1 := Nat.add_comm _ _
  simp only [InRange] at hr
  generalize hbiased : (e + f.exponentBias + f.mantissaBitsWithoutImplicit).toNat = biased at hr
  simp only [UnpackedFloat.pack, hbiased, if_neg hr.not_ge]
  rw [canonical_finite_iff, minExponent_eq] at hc
  rcases hc with ⟨hlog, hmin⟩ | ⟨hlog, rfl⟩
  · obtain ⟨hlow, hhigh⟩ := (Nat.log2_eq_iff hm.ne').1 hlog
    have hexponent : (BitVec.ofNat f.exponentBits biased).toNat = biased :=
      Nat.mod_eq_of_lt (by omega)
    have hmantissa : (1#1 ++ BitVec.ofNat f.mantissaBitsWithoutImplicit m).toNat = m := by
      rw [implicit_append, BitVec.toNat_ofNat, Nat.mod_eq_sub_mod hlow,
        Nat.mod_eq_of_lt (by omega)]
      omega
    have hzero : BitVec.ofNat f.exponentBits biased ≠ 0#_ := by
      rw [Ne, ← BitVec.toNat_inj, hexponent, BitVec.toNat_ofNat, Nat.zero_mod]
      omega
    have hones : BitVec.ofNat f.exponentBits biased ≠ -1#_ := by
      rw [Ne, eq_ones_iff, hexponent]
      omega
    rw [if_pos (by omega)]
    simp only [UnpackedFloat.unpack, unpackExponent_packComponents,
      unpackMantissa_packComponents, unpackSign_packComponents, if_neg hzero, if_neg hones,
      hexponent, hmantissa]
    congr 1
    omega
  · have hmantissa : (BitVec.ofNat f.mantissaBitsWithoutImplicit m).toNat = m :=
      Nat.mod_eq_of_lt ((Nat.log2_lt hm.ne').1 hlog)
    have hfraction : BitVec.ofNat f.mantissaBitsWithoutImplicit m ≠ 0#_ := by
      rw [Ne, ← BitVec.toNat_inj, hmantissa, BitVec.toNat_ofNat, Nat.zero_mod]
      exact hm.ne'
    have hones : 0#f.exponentBits ≠ -1#f.exponentBits := by simp [f.he.ne']
    rw [if_neg (by omega)]
    simp only [UnpackedFloat.unpack, unpackExponent_packComponents,
      unpackMantissa_packComponents, unpackSign_packComponents, hfraction, hmantissa, hones,
      if_false, if_true, dite_false, BitVec.toNat_ofNat, Nat.zero_mod]
    congr 1
    omega

/-- A canonical float comes back from its bits. -/
theorem unpack_pack {u : UnpackedFloat} (hu : u.isFinite = true) (hc : Canonical f u)
    (hr : InRange f u) : UnpackedFloat.unpack f (UnpackedFloat.pack f u) = u := by
  cases u with
  | infinity s => contradiction
  | notANumber => contradiction
  | zero s => exact unpack_pack_zero s
  | finite s m e hm => exact unpack_pack_finite hc hr

theorem unpack_pack_overflow {s : Sign} {m : ℕ} {e : ℤ} {hm : 0 < m}
    (h : ¬ InRange f (.finite s m e hm)) :
    UnpackedFloat.unpack f (UnpackedFloat.pack f (.finite s m e hm)) = .infinity s := by
  simp only [InRange, not_lt] at h
  simp [UnpackedFloat.pack, if_pos h, packedInfinity, UnpackedFloat.unpack]

theorem inRange_of_le {u v : UnpackedFloat} (hu : Canonical f u) (hv : Canonical f v)
    (hpos : 0 < numberOf u) (hle : numberOf u ≤ numberOf v) (hr : InRange f v) : InRange f u := by
  cases u with
  | infinity s => trivial
  | notANumber => trivial
  | zero s => trivial
  | finite s m e hm =>
      cases v with
      | infinity s' => exact absurd hle hpos.not_ge
      | notANumber => exact absurd hle hpos.not_ge
      | zero s' => exact absurd hle hpos.not_ge
      | finite s' m' e' hm' =>
          have hmono : e ≤ e' := by
            have hgrid := gridExponent_mono (f := f) hpos.ne'
              (abs_le_abs_of_nonneg hpos.le hle)
            rwa [numberOf, numberOf, gridExponent_signed s hm.ne', gridExponent_signed s' hm'.ne',
              ← hu, ← hv] at hgrid
          simp only [InRange] at hr ⊢
          omega

/-! ## Comparison with zero -/

theorem le_zero_iff {u : UnpackedFloat} (hu : u.isFinite = true) (z : Sign) :
    u.le (.zero z) = true ↔ numberOf u ≤ 0 := by
  cases u with
  | infinity s => contradiction
  | notANumber => contradiction
  | zero s => simp [UnpackedFloat.le, UnpackedFloat.compare, numberOf]
  | finite s m e hm =>
      have hpos : (0 : ℚ) < m * 2 ^ e := mul_pos (Nat.cast_pos.2 hm) (two_zpow_pos e)
      cases s with
      | negative => simp [UnpackedFloat.le, UnpackedFloat.compare, numberOf, Sign.apply, hpos.le]
      | positive => simp [UnpackedFloat.le, UnpackedFloat.compare, numberOf, Sign.apply, hpos]

theorem unpack_pack_le_zero_iff {u : UnpackedFloat} (hu : u.isFinite = true)
    (hc : Canonical f u) (z : Sign) :
    (UnpackedFloat.unpack f (UnpackedFloat.pack f u)).le (.zero z) = true ↔ numberOf u ≤ 0 := by
  cases u with
  | infinity s => contradiction
  | notANumber => contradiction
  | zero s => rw [unpack_pack_zero, le_zero_iff rfl]
  | finite s m e hm =>
      by_cases hr : InRange f (.finite s m e hm)
      · rw [unpack_pack_finite hc hr, le_zero_iff rfl]
      · rw [unpack_pack_overflow hr, ← le_zero_iff rfl z]
        cases s <;> rfl

/-! ## Single precision -/

def exactSingle (x : Float32) : ℚ :=
  numberOf x.toModel.unpack

variable {x y : Float32}

theorem canonical_single (x : Float32) : Canonical .binary32 x.toModel.unpack :=
  canonical_unpack _

theorem unpack_sub (x y : Float32) :
    (x - y).toModel.unpack = UnpackedFloat.unpack .binary32 (UnpackedFloat.pack .binary32
      (UnpackedFloat.sub .binary32 x.toModel.unpack y.toModel.unpack)) := rfl

theorem single_le_zero_iff (x : Float32) :
    x ≤ 0 ↔ x.toModel.unpack.le (.zero .positive) = true := by
  have hzero : (0 : Float32).toModel.unpack = .zero .positive := by rfl
  rw [← hzero]
  exact decide_eq_true_iff

theorem single_sub_le_zero_iff (hx : x.isFinite = true) (hy : y.isFinite = true) :
    x - y ≤ 0 ↔ exactSingle x ≤ exactSingle y := by
  have hsub := nearest_sub hx hy (canonical_single x) (canonical_single y)
  rw [single_le_zero_iff, unpack_sub, unpack_pack_le_zero_iff hsub.finite hsub.canonical]
  constructor
  · contrapose!
    exact hsub.difference_pos (canonical_single x).dyadic_min (canonical_single y).dyadic_min
  · intro hle
    exact hsub.nonpos (sub_nonpos.2 hle)

theorem nearest_single_sub (hx : x.isFinite = true) (hy : y.isFinite = true)
    (hpos : 0 ≤ exactSingle y) (hlt : exactSingle y < exactSingle x) :
    Nearest .binary32 (exactSingle x - exactSingle y) (x - y).toModel.unpack := by
  have hcx := canonical_single x
  have hsub := nearest_sub hx hy hcx (canonical_single y)
  have hrange := inRange_of_le hsub.canonical hcx
    (hsub.difference_pos hcx.dyadic_min (canonical_single y).dyadic_min hlt)
    (hsub.difference_le hcx.dyadic hpos hlt) (inRange_unpack (by decide) _)
  rw [unpack_sub, unpack_pack hsub.finite hsub.canonical hrange]
  exact hsub

end Nodeflow
