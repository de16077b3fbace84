import Mathlib

/-!
# Rounding to nearest

A finite float stands for an exact number, and an operation on floats takes the exact result
to a nearest multiple of the spacing that the format has about it.  The spacing is read off
the exact number alone.  All that is said of a rounded result below follows from its distance
to the exact one and from its being such a multiple.
-/

namespace Nodeflow

open Float.Model UnpackedFloat

/-! ## Residual bits -/

def fractions : Bool → Bool → Set ℚ
  | false, false => {0}
  | false, true => Set.Ioo 0 (1 / 2)
  | true, false => {1 / 2}
  | true, true => Set.Ioo (1 / 2) 1

def CutFrom (x : ℚ) (em : ExtendedMantissa) : Prop :=
  x - em.mantissa ∈ fractions em.roundBit em.stickyBit

namespace CutFrom

variable {x : ℚ} {em : ExtendedMantissa}

theorem shiftRightOne (h : CutFrom x em) : CutFrom (x / 2) em.shiftRightOne := by
  obtain ⟨m, round, sticky⟩ := em
  have hm : (m : ℚ) = 2 * (m / 2 : ℕ) + (m % 2 : ℕ) := by
    exact_mod_cast (Nat.div_add_mod m 2).symm
  have hhalf : x / 2 - (m / 2 : ℕ) = ((m % 2 : ℕ) + (x - m)) / 2 := by
    rw [hm]
    ring
  simp only [CutFrom, ExtendedMantissa.shiftRightOne] at h ⊢
  rw [hhalf]
  generalize x - m = fraction at h ⊢
  rcases Nat.mod_two_eq_zero_or_one m with hbit | hbit <;> rw [hbit] <;>
    cases round <;> cases sticky <;>
    simp only [fractions, Set.mem_singleton_iff, Set.mem_Ioo, bne_self_eq_false, Nat.reduceBNe,
      Bool.or_self, Bool.or_true, Bool.or_false, Nat.cast_zero, Nat.cast_one] at h ⊢ <;>
    first
      | linarith
      | constructor <;> linarith

theorem shiftRight (h : CutFrom x em) (n : ℕ) : CutFrom (x / 2 ^ n) (em >>> n) := by
  induction n with
  | zero => simpa [HShiftRight.hShiftRight, Nat.repeat] using h
  | succ n ih =>
      rw [pow_succ, ← div_div]
      exact ih.shiftRightOne

/-- The rounded mantissa is a nearest whole number: a tie goes to the even mantissa, which is
half a unit away on either side. -/
theorem abs_sub_le (h : CutFrom x em) : |(em.roundedMantissa : ℚ) - x| ≤ 1 / 2 := by
  obtain ⟨m, round, sticky⟩ := em
  rw [abs_le]
  cases round <;> cases sticky <;>
    simp only [CutFrom, fractions, Set.mem_singleton_iff, Set.mem_Ioo,
      ExtendedMantissa.roundedMantissa, ExtendedMantissa.accuracy,
      Accuracy.roundToNearestEven] at h ⊢
  · constructor <;> linarith
  · constructor <;> linarith
  · rcases Nat.mod_two_eq_zero_or_one m with hbit | hbit <;>
      rw [hbit] <;> push_cast <;> constructor <;> linarith
  · push_cast
    constructor <;> linarith

end CutFrom

/-! ## Nearest whole numbers -/

section Whole

variable {k a : ℤ} {x : ℚ}

theorem le_of_abs_sub_le (h : |(k : ℚ) - x| ≤ 1 / 2) (ha : a ≤ x) : a ≤ k := by
  have hlt : (a : ℚ) < k + 1 := by linarith [(abs_le.1 h).1]
  exact Int.lt_add_one_iff.1 (by exact_mod_cast hlt)

theorem ge_of_abs_sub_le (h : |(k : ℚ) - x| ≤ 1 / 2) (ha : x ≤ a) : k ≤ a := by
  have hlt : (k : ℚ) < a + 1 := by linarith [(abs_le.1 h).2]
  exact Int.lt_add_one_iff.1 (by exact_mod_cast hlt)

end Whole

/-! ## Multiples of a power of two -/

theorem two_zpow_pos (e : ℤ) : (0 : ℚ) < 2 ^ e :=
  zpow_pos two_pos e

def Dyadic (j : ℤ) (q : ℚ) : Prop :=
  ∃ k : ℤ, q = k * 2 ^ j

namespace Dyadic

variable {j j' : ℤ} {q r : ℚ}

theorem zero : Dyadic j 0 :=
  ⟨0, by simp⟩

theorem two_zpow (h : j ≤ j') : Dyadic j (2 ^ j') := by
  obtain ⟨n, rfl⟩ := Int.le.dest h
  exact ⟨2 ^ n, by rw [zpow_add₀ two_ne_zero, zpow_natCast, mul_comm]; norm_cast⟩

theorem of_le (hq : Dyadic j' q) (h : j ≤ j') : Dyadic j q := by
  obtain ⟨k, rfl⟩ := hq
  obtain ⟨l, hl⟩ := two_zpow h
  exact ⟨k * l, by rw [hl, Int.cast_mul, mul_assoc]⟩

theorem sub (hq : Dyadic j q) (hr : Dyadic j r) : Dyadic j (q - r) := by
  obtain ⟨k, rfl⟩ := hq
  obtain ⟨l, rfl⟩ := hr
  exact ⟨k - l, by rw [Int.cast_sub, sub_mul]⟩

theorem eq_of_abs_sub_lt (hq : Dyadic j q) (hr : Dyadic j r) (h : |q - r| < 2 ^ j) : q = r := by
  obtain ⟨k, hk⟩ := hq.sub hr
  rw [hk, abs_mul, abs_of_pos (two_zpow_pos j), mul_lt_iff_lt_one_left (two_zpow_pos j)] at h
  have hk0 : k = 0 := Int.abs_lt_one_iff.1 (by exact_mod_cast h)
  rw [hk0, Int.cast_zero, zero_mul] at hk
  exact sub_eq_zero.1 hk

theorem le_of_pos (hq : Dyadic j q) (h : 0 < q) : 2 ^ j ≤ q := by
  obtain ⟨k, rfl⟩ := hq
  have hk : 0 < k := by exact_mod_cast (pos_iff_pos_of_mul_pos h).2 (two_zpow_pos j)
  exact le_mul_of_one_le_left (two_zpow_pos j).le (by exact_mod_cast hk)

end Dyadic

/-! ## The exact number and the spacing about it -/

def numberOf : UnpackedFloat → ℚ
  | .finite sign mantissa exponent _ => sign.apply mantissa * 2 ^ exponent
  | _ => 0

variable (f : Format)

def gridExponent (q : ℚ) : ℤ :=
  f.targetExponent (Int.log 2 |q| + 1)

def spacing (q : ℚ) : ℚ :=
  2 ^ gridExponent f q

def Canonical : UnpackedFloat → Prop
  | .finite _ mantissa exponent _ => exponent = f.targetExponent (totalExponent mantissa exponent)
  | _ => True

/-- A float of the format that is nearest to an exact number. -/
structure Nearest (q : ℚ) (u : UnpackedFloat) : Prop where
  finite : u.isFinite = true
  canonical : Canonical f u
  dyadic : Dyadic (gridExponent f q) (numberOf u)
  error : |numberOf u - q| ≤ spacing f q / 2

variable {f}

theorem spacing_pos (q : ℚ) : 0 < spacing f q :=
  two_zpow_pos _

theorem minExponent_le_gridExponent (q : ℚ) : f.minExponent ≤ gridExponent f q :=
  le_max_right _ _

theorem abs_lt_spacing {q : ℚ} : |q| < 2 ^ f.mantissaBits * spacing f q := by
  have hlog : |q| < (2 : ℚ) ^ (Int.log 2 |q| + 1) := Int.lt_zpow_succ_log_self one_lt_two |q|
  refine hlog.trans_le ?_
  rw [spacing, ← zpow_natCast, ← zpow_add₀ two_ne_zero]
  refine zpow_le_zpow_right₀ one_le_two ?_
  unfold gridExponent Format.targetExponent
  omega

theorem spacing_le_abs {q : ℚ} (hq : q ≠ 0) (h : f.minExponent < gridExponent f q) :
    2 ^ f.mantissaBitsWithoutImplicit * spacing f q ≤ |q| := by
  have hlog : (2 : ℚ) ^ Int.log 2 |q| ≤ |q| := Int.zpow_log_le_self one_lt_two (abs_pos.2 hq)
  refine le_trans ?_ hlog
  rw [spacing, ← zpow_natCast, ← zpow_add₀ two_ne_zero]
  refine zpow_le_zpow_right₀ one_le_two ?_
  unfold gridExponent Format.targetExponent Format.mantissaBits at h ⊢
  omega

theorem gridExponent_mono {q r : ℚ} (hq : q ≠ 0) (h : |q| ≤ |r|) :
    gridExponent f q ≤ gridExponent f r := by
  have hlog : Int.log 2 |q| ≤ Int.log 2 |r| := Int.log_mono_right (abs_pos.2 hq) h
  unfold gridExponent Format.targetExponent
  omega

theorem spacing_mono {q r : ℚ} (hq : q ≠ 0) (h : |q| ≤ |r|) : spacing f q ≤ spacing f r :=
  zpow_le_zpow_right₀ one_le_two (gridExponent_mono hq h)

theorem abs_signed (s : Sign) (m : ℕ) (e : ℤ) :
    |(s.apply m : ℚ) * 2 ^ e| = m * 2 ^ e := by
  cases s <;> simp [Sign.apply, abs_mul, abs_zpow]

theorem signed_congr (s : Sign) {m k : ℕ} {e t : ℤ} (h : (m : ℚ) * 2 ^ e = k * 2 ^ t) :
    (s.apply m : ℚ) * 2 ^ e = s.apply k * 2 ^ t := by
  cases s <;> simpa [Sign.apply] using h

theorem abs_signed_sub (s : Sign) (k m : ℕ) (c d : ℚ) :
    |(s.apply k : ℚ) * c - s.apply m * d| = |k * c - m * d| := by
  cases s with
  | positive => rfl
  | negative =>
      rw [← abs_neg]
      congr 1
      simp only [Sign.apply]
      push_cast
      ring

theorem totalExponent_eq {m : ℕ} (hm : m ≠ 0) (e : ℤ) :
    totalExponent m e = Int.log 2 ((m : ℚ) * 2 ^ e) + 1 := by
  have hpos : (0 : ℚ) < m * 2 ^ e :=
    mul_pos (Nat.cast_pos.2 (Nat.pos_of_ne_zero hm)) (two_zpow_pos e)
  have hlow : (m.log2 : ℤ) + e ≤ Int.log 2 ((m : ℚ) * 2 ^ e) := by
    rw [← Int.zpow_le_iff_le_log one_lt_two hpos, Nat.cast_ofNat, zpow_add₀ two_ne_zero,
      zpow_natCast]
    gcongr
    exact_mod_cast Nat.log2_self_le hm
  have hhigh : Int.log 2 ((m : ℚ) * 2 ^ e) < (m.log2 : ℤ) + 1 + e := by
    rw [← Int.lt_zpow_iff_log_lt one_lt_two hpos, Nat.cast_ofNat, zpow_add₀ two_ne_zero]
    gcongr
    exact_mod_cast Nat.lt_log2_self
  unfold totalExponent
  omega

theorem gridExponent_signed (s : Sign) {m : ℕ} (hm : m ≠ 0) (e : ℤ) :
    gridExponent f (s.apply m * 2 ^ e) = f.targetExponent (totalExponent m e) := by
  rw [gridExponent, abs_signed, totalExponent_eq hm]

/-! ## Rounding -/

theorem shiftToTargetExponent_exact (m : ℕ) (e : ℤ) :
    shiftToTargetExponent f m e .exact =
      ((⟨m, false, false⟩ : ExtendedMantissa) >>>
          (f.targetExponent (totalExponent m e) - e).toNat,
        e + (f.targetExponent (totalExponent m e) - e).toNat) := rfl

theorem cutFrom_shiftToTargetExponent {m : ℕ} {e : ℤ}
    (he : e ≤ f.targetExponent (totalExponent m e)) :
    ∃ em, shiftToTargetExponent f m e .exact = (em, f.targetExponent (totalExponent m e)) ∧
      CutFrom (m * 2 ^ e / 2 ^ f.targetExponent (totalExponent m e)) em := by
  rw [shiftToTargetExponent_exact]
  generalize f.targetExponent (totalExponent m e) = t at he ⊢
  obtain ⟨n, rfl⟩ := Int.le.dest he
  have hscale : (m : ℚ) / 2 ^ n = m * 2 ^ e / 2 ^ (e + n) := by
    rw [zpow_add₀ two_ne_zero, zpow_natCast]
    field_simp
  have hstart : CutFrom m ⟨m, false, false⟩ := by simp [CutFrom, fractions]
  rw [add_sub_cancel_left, Int.toNat_natCast]
  exact ⟨_, rfl, hscale ▸ hstart.shiftRight n⟩

theorem settle {k : ℕ} {t : ℤ} (hk : k ≤ 2 ^ f.mantissaBits) (hmin : f.minExponent ≤ t)
    (hfull : 2 ^ f.mantissaBitsWithoutImplicit ≤ k ∨ t = f.minExponent) :
    ∃ (m : ℕ) (e : ℤ), shiftToTargetExponent f k t .exact = (⟨m, false, false⟩, e) ∧
      (m : ℚ) * 2 ^ e = k * 2 ^ t ∧ (m ≠ 0 → e = f.targetExponent (totalExponent m e)) := by
  have hbits : f.mantissaBits = f.mantissaBitsWithoutImplicit + 1 := Nat.add_comm _ _
  rw [shiftToTargetExponent_exact]
  rcases hk.lt_or_eq with hlt | rfl
  · have hlog : k.log2 < f.mantissaBits := by
      rcases eq_or_ne k 0 with rfl | hk0
      · simp [hbits]
      · exact (Nat.log2_lt hk0).2 hlt
    have hstay : f.targetExponent (totalExponent k t) ≤ t := by
      unfold Format.targetExponent totalExponent
      omega
    refine ⟨k, t, ?_, rfl, fun hk0 => le_antisymm ?_ hstay⟩
    · rw [Int.toNat_eq_zero.2 (by omega)]
      simp [HShiftRight.hShiftRight, Nat.repeat]
    · rcases hfull with hfull | rfl
      · have := (Nat.le_log2 hk0).2 hfull
        unfold Format.targetExponent totalExponent
        omega
      · exact le_max_right _ _
  · have hnext : f.targetExponent (totalExponent (2 ^ f.mantissaBits) t) = t + 1 := by
      simp only [Format.targetExponent, totalExponent, Nat.log2_two_pow]
      omega
    refine ⟨2 ^ f.mantissaBitsWithoutImplicit, t + 1, ?_, ?_, fun _ => ?_⟩
    · have hhalf : 2 ^ f.mantissaBits / 2 = 2 ^ f.mantissaBitsWithoutImplicit := by
        rw [hbits, pow_succ, Nat.mul_div_cancel _ two_pos]
      have heven : 2 ^ f.mantissaBits % 2 = 0 := by
        rw [hbits, pow_succ, Nat.mul_mod_left]
      simp [hnext, HShiftRight.hShiftRight, Nat.repeat, ExtendedMantissa.shiftRightOne, hhalf,
        heven]
    · rw [hbits, zpow_add_one₀ two_ne_zero]
      push_cast
      ring
    · simp only [Format.targetExponent, totalExponent, Nat.log2_two_pow]
      omega

namespace CutFrom

variable {q : ℚ} {em : ExtendedMantissa}

theorem le_roundedMantissa (h : CutFrom (|q| / spacing f q) em) (hq : q ≠ 0) :
    2 ^ f.mantissaBitsWithoutImplicit ≤ em.roundedMantissa ∨
      gridExponent f q = f.minExponent := by
  rcases (minExponent_le_gridExponent q).lt_or_eq with hlt | heq
  · have hfull := (le_div_iff₀ (spacing_pos q)).2 (spacing_le_abs hq hlt)
    have hle : (2 ^ f.mantissaBitsWithoutImplicit : ℤ) ≤ em.roundedMantissa :=
      le_of_abs_sub_le (by exact_mod_cast h.abs_sub_le) (by exact_mod_cast hfull)
    exact .inl (by exact_mod_cast hle)
  · exact .inr heq.symm

theorem roundedMantissa_le (h : CutFrom (|q| / spacing f q) em) :
    em.roundedMantissa ≤ 2 ^ f.mantissaBits := by
  have hfits := (div_lt_iff₀ (spacing_pos q)).2 (abs_lt_spacing (f := f) (q := q))
  have hle : (em.roundedMantissa : ℤ) ≤ 2 ^ f.mantissaBits :=
    ge_of_abs_sub_le (by exact_mod_cast h.abs_sub_le) (by exact_mod_cast hfits.le)
  exact_mod_cast hle

theorem error (h : CutFrom (|q| / spacing f q) em) :
    |(em.roundedMantissa * spacing f q - |q|)| ≤ spacing f q / 2 := by
  have hpos : 0 < spacing f q := spacing_pos q
  calc |(em.roundedMantissa * spacing f q - |q|)|
      = |em.roundedMantissa - |q| / spacing f q| * spacing f q := by
        rw [← abs_of_pos hpos, ← abs_mul, abs_of_pos hpos, sub_mul, div_mul_cancel₀ _ hpos.ne']
    _ ≤ spacing f q / 2 := by
        linarith [mul_le_mul_of_nonneg_right h.abs_sub_le hpos.le]

end CutFrom

theorem nearest_roundWithAccuracy (s : Sign) {m : ℕ} (hm : m ≠ 0) {e : ℤ}
    (he : e ≤ f.targetExponent (totalExponent m e)) :
    Nearest f (s.apply m * 2 ^ e) (roundWithAccuracy f s m e .exact) := by
  set q : ℚ := s.apply m * 2 ^ e with hq
  have habs : |q| = m * 2 ^ e := abs_signed s m e
  have hq0 : q ≠ 0 := by
    rw [← abs_pos, habs]
    positivity
  have ht : f.targetExponent (totalExponent m e) = gridExponent f q :=
    (gridExponent_signed s hm e).symm
  obtain ⟨em, hfirst, hcut⟩ := cutFrom_shiftToTargetExponent he
  rw [ht, ← habs, ← spacing] at hcut
  obtain ⟨m', e', hsettle, hvalue, hcanonical⟩ :=
    settle hcut.roundedMantissa_le (minExponent_le_gridExponent q) (hcut.le_roundedMantissa hq0)
  have hround : roundWithAccuracy f s m e .exact =
      if h : m' = 0 then .zero s else .finite s m' e' (Nat.pos_of_ne_zero h) := by
    simp only [roundWithAccuracy, hfirst, ht, hsettle]
  have hnumber : numberOf (roundWithAccuracy f s m e .exact) =
      s.apply em.roundedMantissa * spacing f q := by
    rw [spacing, ← signed_congr s hvalue, hround]
    split
    · rename_i hzero
      cases s <;> simp [numberOf, Sign.apply, hzero]
    · rfl
  refine ⟨?_, ?_, ⟨s.apply em.roundedMantissa, hnumber⟩, ?_⟩
  · rw [hround]
    split <;> rfl
  · rw [hround]
    split
    · trivial
    · exact hcanonical ‹_›
  · rw [hnumber, hq, abs_signed_sub, ← hq, ← habs]
    exact hcut.error

theorem decreaseExponent_value (m : ℕ) (e t : ℤ) :
    ((decreaseExponent m e t).1 : ℚ) * 2 ^ (decreaseExponent m e t).2 = m * 2 ^ e := by
  simp only [decreaseExponent, Nat.shiftLeft_eq]
  rw [zpow_sub₀ two_ne_zero, zpow_natCast]
  push_cast
  field_simp

theorem decreaseExponent_exponent (m : ℕ) (e t : ℤ) :
    (decreaseExponent m e t).2 = min e t := by
  simp only [decreaseExponent]
  omega

theorem decreaseExponent_ne_zero {m : ℕ} (hm : m ≠ 0) (e t : ℤ) :
    (decreaseExponent m e t).1 ≠ 0 := by
  simp [decreaseExponent, Nat.shiftLeft_eq, hm]

theorem nearest_round (s : Sign) {m : ℕ} (hm : m ≠ 0) (e : ℤ) :
    Nearest f (s.apply m * 2 ^ e) (UnpackedFloat.round f s m e) := by
  generalize ht : f.targetExponent (totalExponent m e) = t
  have hvalue := decreaseExponent_value m e t
  have hpos := decreaseExponent_ne_zero hm e t
  have htarget : f.targetExponent (totalExponent (decreaseExponent m e t).1
      (decreaseExponent m e t).2) = t := by
    rw [totalExponent_eq hpos, hvalue, ← totalExponent_eq hm, ht]
  have hle : (decreaseExponent m e t).2 ≤ t :=
    (decreaseExponent_exponent m e t).trans_le (min_le_right e t)
  rw [← signed_congr s hvalue, UnpackedFloat.round, ht]
  exact nearest_roundWithAccuracy s hpos (hle.trans_eq htarget.symm)

theorem Canonical.dyadic {u : UnpackedFloat} (h : Canonical f u) :
    Dyadic (gridExponent f (numberOf u)) (numberOf u) := by
  cases u with
  | infinity s => exact .zero
  | notANumber => exact .zero
  | zero s => exact .zero
  | finite s m e hm =>
      refine ⟨s.apply m, ?_⟩
      rw [numberOf, gridExponent_signed s hm.ne', ← h]

theorem Nearest.self {u : UnpackedFloat} (hu : u.isFinite = true) (h : Canonical f u) :
    Nearest f (numberOf u) u where
  finite := hu
  canonical := h
  dyadic := h.dyadic
  error := by
    rw [sub_self, abs_zero]
    exact (half_pos (spacing_pos _)).le

theorem Nearest.zero (s : Sign) : Nearest f 0 (.zero s) :=
  Nearest.self (u := .zero s) rfl trivial

theorem nearest_normalize (m e : ℤ) (s : Sign) :
    Nearest f (m * 2 ^ e) (UnpackedFloat.normalize f m e s) := by
  unfold UnpackedFloat.normalize
  rcases lt_trichotomy m 0 with hneg | rfl | hpos
  · have hm : m = Sign.negative.apply (-m).toNat := by
      simp only [Sign.apply]
      omega
    rw [compare_lt_iff_lt.2 hneg]
    nth_rewrite 1 [hm]
    exact nearest_round .negative (by omega) e
  · simpa using Nearest.zero s
  · have hm : m = Sign.positive.apply m.toNat := by
      simp only [Sign.apply]
      omega
    rw [compare_gt_iff_gt.2 hpos]
    nth_rewrite 1 [hm]
    exact nearest_round .positive (by omega) e

theorem numberOf_neg (s : Sign) (m : ℕ) (e : ℤ) (hm : 0 < m) :
    numberOf (.finite (-s) m e hm) = -numberOf (.finite s m e hm) := by
  have hsign : (-s).apply m = -s.apply m := by
    cases s with
    | positive => rfl
    | negative => exact (neg_neg _).symm
  rw [numberOf, numberOf, hsign, Int.cast_neg, neg_mul]

/-- A difference of floats is the exact one, rounded. -/
theorem nearest_sub {u v : UnpackedFloat} (hu : u.isFinite = true) (hv : v.isFinite = true)
    (hcu : Canonical f u) (hcv : Canonical f v) :
    Nearest f (numberOf u - numberOf v) (UnpackedFloat.sub f u v) := by
  cases u with
  | infinity s => contradiction
  | notANumber => contradiction
  | zero s =>
      cases v with
      | infinity s' => contradiction
      | notANumber => contradiction
      | zero s' =>
          simp only [numberOf, sub_zero, UnpackedFloat.sub]
          split <;> exact Nearest.zero _
      | finite s' m' e' hm' =>
          have hneg := Nearest.self (f := f) (u := .finite (-s') m' e' hm') rfl hcv
          rw [numberOf_neg, ← zero_sub] at hneg
          exact hneg
  | finite s m e hm =>
      cases v with
      | infinity s' => contradiction
      | notANumber => contradiction
      | zero s' => simpa [numberOf, UnpackedFloat.sub] using Nearest.self hu hcu
      | finite s' m' e' hm' =>
          have hleft := decreaseExponent_value m e (min e e')
          have hright := decreaseExponent_value m' e' (min e e')
          rw [decreaseExponent_exponent, min_eq_right (min_le_left _ _)] at hleft
          rw [decreaseExponent_exponent, min_eq_right (min_le_right _ _)] at hright
          rw [numberOf, numberOf, ← signed_congr s hleft, ← signed_congr s' hright, ← sub_mul]
          exact_mod_cast nearest_normalize _ _ _

/-! ## What rounding keeps -/

namespace Nearest

variable {q c : ℚ} {u : UnpackedFloat} {j : ℤ}

theorem le_numberOf (h : Nearest f q u) (hc : Dyadic (gridExponent f q) c) (hle : c ≤ q) :
    c ≤ numberOf u := by
  by_contra! hlt
  have hgap : spacing f q ≤ c - numberOf u := (hc.sub h.dyadic).le_of_pos (sub_pos.2 hlt)
  linarith [(abs_le.1 h.error).1, spacing_pos (f := f) q]

theorem numberOf_le (h : Nearest f q u) (hc : Dyadic (gridExponent f q) c) (hle : q ≤ c) :
    numberOf u ≤ c := by
  by_contra! hlt
  have hgap : spacing f q ≤ numberOf u - c := (h.dyadic.sub hc).le_of_pos (sub_pos.2 hlt)
  linarith [(abs_le.1 h.error).2, spacing_pos (f := f) q]

theorem numberOf_eq (h : Nearest f q u) (hq : Dyadic (gridExponent f q) q) : numberOf u = q :=
  le_antisymm (h.numberOf_le hq le_rfl) (h.le_numberOf hq le_rfl)

theorem nonpos (h : Nearest f q u) (hq : q ≤ 0) : numberOf u ≤ 0 :=
  h.numberOf_le .zero hq

theorem pos (h : Nearest f q u) (hq : 2 ^ f.minExponent ≤ q) : 0 < numberOf u := by
  have hpos : 0 < q := (two_zpow_pos _).trans_le hq
  have hlog : (2 : ℚ) ^ Int.log 2 q ≤ q := Int.zpow_log_le_self one_lt_two hpos
  have hmin : f.minExponent ≤ Int.log 2 q :=
    (Int.zpow_le_iff_le_log one_lt_two hpos).1 (by exact_mod_cast hq)
  -- The leading digit alone is a number of the grid that rounding does not lead below.
  have hgrid : gridExponent f q ≤ Int.log 2 q := by
    rw [gridExponent, abs_of_pos hpos]
    unfold Format.targetExponent Format.mantissaBits
    omega
  exact (two_zpow_pos _).trans_le (h.le_numberOf (.two_zpow hgrid) hlog)

end Nearest

/-! ## Differences -/

theorem Canonical.dyadic_min {u : UnpackedFloat} (h : Canonical f u) :
    Dyadic f.minExponent (numberOf u) :=
  h.dyadic.of_le (minExponent_le_gridExponent _)

theorem gridExponent_le_of_lt {q : ℚ} {j : ℤ} (hq : 0 < q) (h : q < 2 ^ (f.mantissaBits + j)) :
    gridExponent f q ≤ max j f.minExponent := by
  have hlog : Int.log 2 q < f.mantissaBits + j := by
    rw [← Int.lt_zpow_iff_log_lt one_lt_two hq]
    exact_mod_cast h
  rw [gridExponent, abs_of_pos hq]
  unfold Format.targetExponent
  omega

theorem spacing_le_of_half {q r : ℚ} (hr : 0 < r) (h : r ≤ 2 * q) :
    spacing f r ≤ 2 * spacing f q := by
  have hq : 0 < q := by linarith
  have hlog : Int.log 2 r < Int.log 2 q + 1 + 1 := by
    rw [← Int.lt_zpow_iff_log_lt one_lt_two hr]
    have hlt : q < (2 : ℚ) ^ (Int.log 2 q + 1) := Int.lt_zpow_succ_log_self one_lt_two q
    calc r ≤ 2 * q := h
      _ < 2 * 2 ^ (Int.log 2 q + 1) := by gcongr
      _ = ((2 : ℕ) : ℚ) ^ (Int.log 2 q + 1 + 1) := by
        rw [Nat.cast_ofNat, zpow_add_one₀ two_ne_zero (Int.log 2 q + 1), mul_comm]
  rw [spacing, spacing, ← zpow_one_add₀ two_ne_zero]
  refine zpow_le_zpow_right₀ one_le_two ?_
  rw [gridExponent, gridExponent, abs_of_pos hr, abs_of_pos hq]
  unfold Format.targetExponent
  omega

theorem abs_difference_le {x y : ℚ} (hy : 0 ≤ y) (hlt : y < x) : |x - y| ≤ |x| := by
  rw [abs_of_pos (sub_pos.2 hlt), abs_of_pos (hy.trans_lt hlt)]
  exact sub_le_self x hy

namespace Nearest

variable {x y : ℚ} {u : UnpackedFloat} {j : ℤ}

theorem difference_pos (h : Nearest f (x - y) u) (hx : Dyadic f.minExponent x)
    (hy : Dyadic f.minExponent y) (hlt : y < x) : 0 < numberOf u :=
  h.pos ((hx.sub hy).le_of_pos (sub_pos.2 hlt))

theorem difference_le (h : Nearest f (x - y) u) (hx : Dyadic (gridExponent f x) x)
    (hy : 0 ≤ y) (hlt : y < x) : numberOf u ≤ x :=
  h.numberOf_le (hx.of_le (gridExponent_mono (sub_pos.2 hlt).ne' (abs_difference_le hy hlt)))
    (sub_le_self x hy)

theorem difference_error (h : Nearest f (x - y) u) (hy : 0 ≤ y) (hlt : y < x) :
    |numberOf u - (x - y)| ≤ spacing f x / 2 :=
  h.error.trans (by
    linarith [spacing_mono (f := f) (sub_pos.2 hlt).ne' (abs_difference_le hy hlt)])

theorem difference_exact (h : Nearest f (x - y) u) (hx : Dyadic f.minExponent x)
    (hy : Dyadic f.minExponent y) (hxj : Dyadic j x) (hyj : Dyadic j y) (hlt : y < x)
    (hbound : x - y < 2 ^ (f.mantissaBits + j)) : numberOf u = x - y := by
  have hgrid := gridExponent_le_of_lt (sub_pos.2 hlt) hbound
  refine h.numberOf_eq ?_
  rcases le_total j f.minExponent with hj | hj
  · exact (hx.sub hy).of_le (hgrid.trans_eq (max_eq_right hj))
  · exact (hxj.sub hyj).of_le (hgrid.trans_eq (max_eq_left hj))

/-- What is less than a quarter of the spacing is lost altogether. -/
theorem difference_absorbed (h : Nearest f (x - y) u) (hx : Dyadic (gridExponent f x) x)
    (hpos : 0 < x) (hy : 0 ≤ y) (hsmall : y < spacing f x / 4) : numberOf u = x := by
  have hunit : spacing f x ≤ x := hx.le_of_pos hpos
  have hlt : y < x := by linarith
  have hfine : spacing f x ≤ 2 * spacing f (x - y) :=
    spacing_le_of_half hpos (by linarith)
  have hgrid : Dyadic (gridExponent f (x - y)) x :=
    hx.of_le (gridExponent_mono (sub_pos.2 hlt).ne' (abs_difference_le hy hlt))
  refine h.dyadic.eq_of_abs_sub_lt hgrid ?_
  rw [← spacing]
  have herror := abs_le.1 h.error
  rw [abs_lt]
  constructor <;> linarith

end Nearest

end Nodeflow
