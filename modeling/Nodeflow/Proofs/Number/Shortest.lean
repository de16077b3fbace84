import Mathlib
import Nodeflow.Proofs.Number.Grammar

/-!
# What the search for shortest digits finds

The search ends either at a grid point of the rounding interval or, on its finest grid,
at the number itself.  Both are positive and neither is beyond the upper end of the
interval, which bounds the decimal exponent of the first digit.
-/

namespace Nodeflow

/-! ## Grids -/

theorem gridRatio_scale (n : Nat) (e k : Int) :
    gridRatio n e k = (n * (gridRatio 1 e k).1, (gridRatio 1 e k).2) := by
  simp only [gridRatio, scaleRatio]
  cases k <;> cases -e <;> simp [mul_assoc]

theorem gridRatio_den_pos (n : Nat) (e k : Int) : 0 < (gridRatio n e k).2 := by
  simp only [gridRatio, scaleRatio]
  cases k <;> cases -e <;> simp

theorem gridRatio_num_pos {n : Nat} (h : 0 < n) (e k : Int) : 0 < (gridRatio n e k).1 := by
  simp only [gridRatio, scaleRatio]
  cases k <;> cases -e <;> simp [h]

theorem scaleRatio_value (n : Nat) (e : Int) :
    ((scaleRatio n 1 (-e)).1 : ℚ) = (scaleRatio n 1 (-e)).2 * (n * 2 ^ e) := by
  obtain ⟨e, rfl⟩ : ∃ m, e = -m := ⟨-e, (neg_neg e).symm⟩
  rw [neg_neg]
  cases e with
  | ofNat j =>
      simp only [scaleRatio, Int.ofNat_eq_natCast, zpow_neg, zpow_natCast]
      simp
      field_simp
  | negSucc j =>
      rw [Int.neg_negSucc, zpow_natCast]
      simp [scaleRatio]

theorem gridRatio_value (n : Nat) (e k : Int) :
    ((gridRatio n e k).1 : ℚ) * 10 ^ k = (gridRatio n e k).2 * (n * 2 ^ e) := by
  simp only [gridRatio]
  cases k with
  | ofNat d =>
      simp only [Int.ofNat_eq_natCast, zpow_natCast, Nat.cast_mul, scaleRatio_value n e]
      simp
      ring
  | negSucc d =>
      simp only [zpow_negSucc, Nat.cast_mul, scaleRatio_value n e]
      simp

theorem le_of_mul_gridRatio_le {digits n : Nat} {e k : Int}
    (h : digits * (gridRatio n e k).2 ≤ (gridRatio n e k).1) :
    (digits : ℚ) * 10 ^ k ≤ n * 2 ^ e := by
  have hden : (0 : ℚ) < (gridRatio n e k).2 := by exact_mod_cast gridRatio_den_pos n e k
  have hcast : (digits : ℚ) * (gridRatio n e k).2 ≤ (gridRatio n e k).1 := by exact_mod_cast h
  have hten : (0 : ℚ) < 10 ^ k := zpow_pos (by norm_num) k
  refine le_of_mul_le_mul_left ?_ hden
  calc ((gridRatio n e k).2 : ℚ) * (digits * 10 ^ k)
      = digits * (gridRatio n e k).2 * 10 ^ k := by ring
    _ ≤ (gridRatio n e k).1 * 10 ^ k := by gcongr
    _ = (gridRatio n e k).2 * (n * 2 ^ e) := gridRatio_value n e k

theorem gridRatio_den_le_num {n : Nat} (hn : 0 < n) {e k : Int} (hk : k ≤ min e 0) :
    (gridRatio n e k).2 ≤ (gridRatio n e k).1 := by
  have hten : (0 : ℚ) < 10 ^ k := zpow_pos (by norm_num) k
  have hle : (10 : ℚ) ^ k ≤ n * 2 ^ e := by
    have hpow : (10 : ℚ) ^ k ≤ 2 ^ k := by
      obtain ⟨j, rfl⟩ : ∃ j : Nat, k = -j := ⟨k.natAbs, by omega⟩
      rw [zpow_neg, zpow_neg, zpow_natCast, zpow_natCast]
      gcongr
      norm_num
    calc (10 : ℚ) ^ k ≤ 2 ^ k := hpow
      _ ≤ 2 ^ e := zpow_le_zpow_right₀ (by norm_num) (hk.trans (min_le_left e 0))
      _ ≤ n * 2 ^ e := le_mul_of_one_le_left (by positivity) (by exact_mod_cast hn)
  have hcast : ((gridRatio n e k).2 : ℚ) ≤ (gridRatio n e k).1 := by
    refine le_of_mul_le_mul_right ?_ hten
    rw [gridRatio_value]
    gcongr
  exact_mod_cast hcast

/-! ## The search -/

namespace RoundingInterval

/-- An interval of positive numbers around its centre. -/
structure Sound (i : RoundingInterval) : Prop where
  low : 0 < i.low
  centre : 0 < i.centre
  high : i.centre ≤ i.high

def Fits (i : RoundingInterval) (digits : Nat) (k : Int) : Prop :=
  0 < digits ∧ digits * (gridRatio i.high i.exponent k).2 ≤ (gridRatio i.high i.exponent k).1

theorem fits_of_holds {i : RoundingInterval} (hi : i.Sound) {digits : Nat} {k : Int}
    (h : i.holds digits k = true) : i.Fits digits k := by
  have hlow := gridRatio_num_pos hi.low i.exponent k
  have hden : (gridRatio i.low i.exponent k).2 = (gridRatio i.high i.exponent k).2 := by
    rw [gridRatio_scale i.low, gridRatio_scale i.high]
  have hbounds : (gridRatio i.low i.exponent k).1 ≤ digits * (gridRatio i.low i.exponent k).2 ∧
      digits * (gridRatio i.low i.exponent k).2 ≤ (gridRatio i.high i.exponent k).1 := by
    simp only [holds] at h
    split at h
    · simpa using h
    · simp only [Bool.and_eq_true, decide_eq_true_eq] at h
      exact ⟨h.1.le, h.2.le⟩
  refine ⟨?_, hden ▸ hbounds.2⟩
  exact Nat.pos_of_mul_pos_right (hlow.trans_le hbounds.1)

theorem holds_of_gridPoint? {i : RoundingInterval} {tiesUp : Bool} {digits : Nat} {k : Int}
    (h : i.gridPoint? tiesUp k = some digits) : i.holds digits k = true := by
  simp only [gridPoint?] at h
  split at h
  · contradiction
  · cases h; assumption
  · cases h; assumption
  · rename_i hbelow habove
    split at h
    · cases h; exact hbelow
    · cases h; exact habove
    · split at h
      · cases h; exact habove
      · cases h; exact hbelow

theorem fits_shortestFrom {i : RoundingInterval} (hi : i.Sound) (tiesUp : Bool) (steps : Nat)
    (k : Int) (hk : k - steps ≤ min i.exponent 0) :
    i.Fits (i.shortestFrom tiesUp k steps).1 (i.shortestFrom tiesUp k steps).2 := by
  induction steps generalizing k with
  | zero =>
      have hk : k ≤ min i.exponent 0 := by simpa using hk
      have hunit := gridRatio_den_le_num hi.centre hk
      have hpos := gridRatio_den_pos i.centre i.exponent k
      have hden : (gridRatio i.centre i.exponent k).2 = (gridRatio i.high i.exponent k).2 := by
        rw [gridRatio_scale i.centre, gridRatio_scale i.high]
      refine ⟨Nat.div_pos hunit hpos, ?_⟩
      rw [shortestFrom, ← hden]
      calc (gridRatio i.centre i.exponent k).1 / (gridRatio i.centre i.exponent k).2 *
              (gridRatio i.centre i.exponent k).2
          ≤ (gridRatio i.centre i.exponent k).1 := Nat.div_mul_le_self _ _
        _ ≤ (gridRatio i.high i.exponent k).1 := by
            rw [gridRatio_scale i.centre, gridRatio_scale i.high]
            exact Nat.mul_le_mul_right _ hi.high
  | succ steps ih =>
      simp only [shortestFrom]
      cases hpoint : i.gridPoint? tiesUp k with
      | some digits => exact fits_of_holds hi (holds_of_gridPoint? hpoint)
      | none => exact ih (k - 1) (by omega)

end RoundingInterval

namespace BinaryFormat

theorem split_pos (f : BinaryFormat) {magnitude : Nat} (h : 0 < magnitude) :
    0 < (f.split magnitude).1 := by
  have hbit : 0 < f.leadingBit := Nat.pow_pos (by decide)
  simp only [split]
  split
  · exact h
  · exact Nat.add_pos_right _ hbit

theorem interval_sound (f : BinaryFormat) {magnitude : Nat} (h : 0 < magnitude) :
    (f.interval magnitude).Sound := by
  have hpos := f.split_pos h
  simp only [interval]
  refine ⟨?_, ?_, ?_⟩ <;> dsimp only
  · split <;> omega
  · omega
  · omega

theorem fits_shortest (f : BinaryFormat) (tiesUp : Bool) {magnitude : Nat} (h : 0 < magnitude) :
    (f.interval magnitude).Fits (f.shortest tiesUp magnitude).1
      (f.shortest tiesUp magnitude).2 := by
  rw [shortest]
  exact RoundingInterval.fits_shortestFrom (f.interval_sound h) tiesUp _ _ (by omega)

/-! ## Sizes of singles -/

theorem binary32_interval {magnitude : Nat} (h : magnitude < binary32.infinity) :
    (binary32.interval magnitude).high < 2 ^ 27 ∧ (binary32.interval magnitude).exponent ≤ 102 := by
  have hbit : binary32.leadingBit = 2 ^ 23 := rfl
  have htop : binary32.infinity = 255 * 2 ^ 23 := rfl
  have hleast : binary32.leastExponent = -149 := rfl
  rw [htop] at h
  simp only [interval, split, hbit, hleast]
  split <;> dsimp only <;> omega

theorem binary32_first_lt (tiesUp : Bool) {magnitude : Nat} (hpos : 0 < magnitude)
    (hfin : magnitude < binary32.infinity) :
    (binary32.shortest tiesUp magnitude).2 +
      (Nat.toDigits 10 (binary32.shortest tiesUp magnitude).1).length - 1 < 39 := by
  obtain ⟨hdigits, hle⟩ := binary32.fits_shortest tiesUp hpos
  obtain ⟨hhigh, hexp⟩ := binary32_interval hfin
  set digits := (binary32.shortest tiesUp magnitude).1
  set k := (binary32.shortest tiesUp magnitude).2
  set len := (Nat.toDigits 10 digits).length with hlen
  have hlenpos : 0 < len := Nat.length_toDigits_pos
  have hsize : 10 ^ (len - 1) ≤ digits := by
    by_contra hlt
    rw [Nat.not_le] at hlt
    rcases Nat.eq_zero_or_pos (len - 1) with hzero | hone
    · rw [hzero] at hlt; omega
    · have := (Nat.length_toDigits_le_iff (by decide) hone).2 hlt
      omega
  have hvalue : (digits : ℚ) * 10 ^ k < 10 ^ (39 : Int) := by
    calc (digits : ℚ) * 10 ^ k
        ≤ (binary32.interval magnitude).high * 2 ^ (binary32.interval magnitude).exponent :=
          le_of_mul_gridRatio_le hle
      _ ≤ 2 ^ 27 * 2 ^ (102 : Int) := by
          gcongr
          · exact_mod_cast hhigh.le
          · norm_num
      _ < 10 ^ (39 : Int) := by norm_num
  have hpow : (10 : ℚ) ^ (k + len - 1) < 10 ^ (39 : Int) := by
    calc (10 : ℚ) ^ (k + len - 1) = 10 ^ (len - 1) * 10 ^ k := by
          rw [← zpow_natCast, ← zpow_add₀ (by norm_num)]
          congr 1
          omega
      _ ≤ digits * 10 ^ k := by
          gcongr
          exact_mod_cast hsize
      _ < 10 ^ (39 : Int) := hvalue
  exact (zpow_lt_zpow_iff_right₀ (by norm_num)).1 hpow

end BinaryFormat

/-! ## Numerals of floats -/

namespace DecimalLayout

theorem finite_grammatical (layout : DecimalLayout) (f : BinaryFormat) (negative : Bool)
    (magnitude : Nat) : (layout.finite f negative magnitude).Grammatical := by
  rw [finite]
  split
  · exact ⟨.inl rfl, isDigits_wholeFraction layout, .inl rfl⟩
  · rename_i hne
    exact layout.positive_grammatical negative _
      (f.fits_shortest layout.tiesUp (Nat.pos_of_ne_zero hne)).1

theorem isWhole_finite {layout : DecimalLayout} (hpoint : layout.keepsPoint = true)
    (f : BinaryFormat) (negative : Bool) (magnitude : Nat) :
    (layout.finite f negative magnitude).isWhole = false := by
  rw [finite]
  split
  · simp [Numeral.isWhole, wholeFraction, hpoint]
  · exact isWhole_positive hpoint _ _ _

end DecimalLayout

end Nodeflow
