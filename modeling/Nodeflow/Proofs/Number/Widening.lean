import Mathlib
import Nodeflow.Proofs.Number.Order
import Nodeflow.Proofs.Number.Shortest
import Nodeflow.Value

/-!
# Whole numbers as doubles

Magnitudes are ordered like the numbers they stand for, and rounding keeps that order.
A whole number that some double holds is rounded to that double, and every one of up to
53 bits is held.  Beyond that, neighbours can fall together.
-/

namespace Nodeflow

/-! ## What magnitudes stand for -/

namespace BinaryFormat

variable (f : BinaryFormat)

def value (magnitude : Nat) : ℚ :=
  (f.split magnitude).1 * 2 ^ (f.split magnitude).2

theorem leadingBit_pos : 0 < f.leadingBit :=
  Nat.two_pow_pos _

theorem split_mk (field : Nat) {fraction : Nat} (h : fraction < f.leadingBit) :
    f.split (field * f.leadingBit + fraction) =
      if field = 0 then (fraction, f.leastExponent)
      else (fraction + f.leadingBit, f.leastExponent + (field - 1 : Nat)) := by
  have hdiv : (field * f.leadingBit + fraction) / f.leadingBit = field := by
    rw [Nat.mul_comm, Nat.mul_add_div f.leadingBit_pos, Nat.div_eq_of_lt h, Nat.add_zero]
  have hmod : (field * f.leadingBit + fraction) % f.leadingBit = fraction := by
    rw [Nat.mul_comm, Nat.mul_add_mod, Nat.mod_eq_of_lt h]
  rw [split, hdiv, hmod]
  split
  · rename_i hfield
    rw [hfield, Nat.zero_mul, Nat.zero_add]
  · rfl

theorem value_mk_zero {fraction : Nat} (h : fraction < f.leadingBit) :
    f.value fraction = fraction * 2 ^ f.leastExponent := by
  have hsplit := f.split_mk 0 h
  rw [Nat.zero_mul, Nat.zero_add, if_pos rfl] at hsplit
  rw [value, hsplit]

theorem value_mk_succ (field : Nat) {fraction : Nat} (h : fraction < f.leadingBit) :
    f.value ((field + 1) * f.leadingBit + fraction) =
      (fraction + f.leadingBit) * 2 ^ (f.leastExponent + field) := by
  rw [value, f.split_mk (field + 1) h, if_neg (Nat.succ_ne_zero _)]
  push_cast
  rfl

theorem value_lt_succ (magnitude : Nat) : f.value magnitude < f.value (magnitude + 1) := by
  obtain ⟨field, fraction, hlt, rfl⟩ : ∃ field fraction, fraction < f.leadingBit ∧
      magnitude = field * f.leadingBit + fraction :=
    ⟨magnitude / f.leadingBit, magnitude % f.leadingBit, Nat.mod_lt _ f.leadingBit_pos,
      (Nat.div_add_mod' _ _).symm⟩
  have hpos : ∀ e : Int, (0 : ℚ) < 2 ^ e := fun e => zpow_pos (by norm_num) e
  have hlast : fraction + 1 = f.leadingBit → (fraction : ℚ) = f.leadingBit - 1 := by
    intro h
    rw [← h]
    push_cast
    ring
  obtain hnext | hnext : fraction + 1 < f.leadingBit ∨ fraction + 1 = f.leadingBit := by omega
  · rw [Nat.add_assoc]
    cases field with
    | zero =>
        rw [Nat.zero_mul, Nat.zero_add, Nat.zero_add, f.value_mk_zero hlt, f.value_mk_zero hnext]
        push_cast
        nlinarith [hpos f.leastExponent]
    | succ field =>
        rw [f.value_mk_succ field hlt, f.value_mk_succ field hnext]
        push_cast
        nlinarith [hpos (f.leastExponent + field)]
  · have hcarry : field * f.leadingBit + fraction + 1 = (field + 1) * f.leadingBit + 0 := by
      rw [Nat.add_assoc, hnext]
      ring
    rw [hcarry, f.value_mk_succ field f.leadingBit_pos]
    cases field with
    | zero =>
        rw [Nat.zero_mul, Nat.zero_add, f.value_mk_zero hlt, hlast hnext]
        push_cast
        rw [add_zero]
        nlinarith [hpos f.leastExponent]
    | succ field =>
        have hexp : (2 : ℚ) ^ (f.leastExponent + ((field + 1 : Nat) : Int)) =
            2 * 2 ^ (f.leastExponent + field) := by
          rw [Nat.cast_succ, ← add_assoc, zpow_add_one₀ (by norm_num)]
          ring
        rw [f.value_mk_succ field hlt, hexp, hlast hnext]
        push_cast
        nlinarith [hpos (f.leastExponent + field)]

theorem value_strictMono : StrictMono f.value :=
  strictMono_nat_of_lt_succ f.value_lt_succ

end BinaryFormat

/-! ## Rounding ratios -/

theorem roundHalfEven_mul (k : Nat) {den : Nat} (h : 0 < den) :
    roundHalfEven (k * den) den = k := by
  have hcompare : compare 0 den = .lt := Nat.compare_eq_lt.2 h
  simp [roundHalfEven, Nat.mul_div_left k h, hcompare]

theorem roundHalfEven_mono {a b den : Nat} (h : a ≤ b) :
    roundHalfEven a den ≤ roundHalfEven b den := by
  have hdiv : a / den ≤ b / den := Nat.div_le_div_right h
  have ha := roundHalfEven_le a den
  have hb : b / den ≤ roundHalfEven b den := by
    simp only [roundHalfEven]
    split <;> omega
  rcases Nat.lt_or_eq_of_le hdiv with hlt | heq
  · exact ha.trans ((Nat.succ_le_of_lt hlt).trans hb)
  · have hmod : a % den ≤ b % den := by
      have hda := Nat.div_add_mod a den
      have hdb := Nat.div_add_mod b den
      rw [heq] at hda
      omega
    simp only [roundHalfEven, heq]
    split <;> split <;>
      simp only [Nat.compare_eq_lt, Nat.compare_eq_eq, Nat.compare_eq_gt] at * <;> omega

/-! ## Rounding whole numbers -/

theorem scaleRatio_den_pos (n : Nat) (e : Int) : 0 < (scaleRatio n 1 e).2 := by
  cases e <;> simp [scaleRatio]

theorem scaleRatio_num (n : Nat) (e : Int) :
    ((scaleRatio n 1 e).1 : ℚ) = (scaleRatio n 1 e).2 * (n * 2 ^ (-e)) := by
  simpa using scaleRatio_value n (-e)

theorem mul_scaleRatio_le_iff {k n : Nat} {e : Int} :
    k * (scaleRatio n 1 e).2 ≤ (scaleRatio n 1 e).1 ↔ (k : ℚ) ≤ n * 2 ^ (-e) := by
  have hden : (0 : ℚ) < (scaleRatio n 1 e).2 := by exact_mod_cast scaleRatio_den_pos n e
  rw [← @Nat.cast_le ℚ, scaleRatio_num, Nat.cast_mul, mul_comm (k : ℚ),
    mul_le_mul_iff_right₀ hden]

theorem le_scaled_whole {n : Nat} (hn : n ≠ 0) :
    (2 : ℚ) ^ 52 ≤ n * 2 ^ (-((n.log2 : Int) - 52)) := by
  have hlow : (2 : ℚ) ^ n.log2 ≤ n := by exact_mod_cast Nat.log2_self_le hn
  calc (2 : ℚ) ^ 52 = 2 ^ n.log2 * 2 ^ (-((n.log2 : Int) - 52)) := by
        rw [← zpow_natCast, ← zpow_natCast, ← zpow_add₀ (by norm_num)]
        congr 1
        omega
    _ ≤ n * 2 ^ (-((n.log2 : Int) - 52)) :=
        mul_le_mul_of_nonneg_right hlow (zpow_nonneg (by norm_num) _)

theorem scaled_whole_le (n : Nat) : n * 2 ^ (-((n.log2 : Int) - 52)) ≤ (2 : ℚ) ^ 53 := by
  have hhigh : (n : ℚ) ≤ 2 ^ (n.log2 + 1) := by exact_mod_cast Nat.lt_log2_self.le
  calc n * 2 ^ (-((n.log2 : Int) - 52)) ≤ (2 : ℚ) ^ (n.log2 + 1) * 2 ^ (-((n.log2 : Int) - 52)) :=
        mul_le_mul_of_nonneg_right hhigh (zpow_nonneg (by norm_num) _)
    _ = (2 : ℚ) ^ 53 := by
        rw [← zpow_natCast, ← zpow_natCast, ← zpow_add₀ (by norm_num)]
        congr 1
        push_cast
        ring

theorem unitExponent_whole_eq {n : Nat} (hn : n ≠ 0) :
    binary64.unitExponent n 1 = (n.log2 : Int) - 52 := by
  have hone : Nat.log2 1 = 0 := by decide
  have hbits : binary64.fractionBits = 52 := rfl
  have hbit : binary64.leadingBit = 2 ^ 52 := rfl
  have hleast : binary64.leastExponent = -1074 := rfl
  have hscaled : ¬(scaleRatio n 1 ((n.log2 : Int) - 52)).1 <
      (scaleRatio n 1 ((n.log2 : Int) - 52)).2 * 2 ^ 52 := by
    rw [Nat.not_lt, Nat.mul_comm, mul_scaleRatio_le_iff]
    exact_mod_cast le_scaled_whole hn
  simp only [BinaryFormat.unitExponent, hone, hbits, hbit, hleast, Nat.cast_zero, sub_zero,
    Nat.cast_ofNat, if_neg hscaled]
  omega

def wholeSignificand (n : Nat) : Nat :=
  let scaled := scaleRatio n 1 ((n.log2 : Int) - 52)
  roundHalfEven scaled.1 scaled.2

theorem wholeSignificand_eq {n k : Nat} (h : (n : ℚ) * 2 ^ (-((n.log2 : Int) - 52)) = k) :
    wholeSignificand n = k := by
  have hnum : (scaleRatio n 1 ((n.log2 : Int) - 52)).1 =
      k * (scaleRatio n 1 ((n.log2 : Int) - 52)).2 := by
    have hvalue := scaleRatio_num n ((n.log2 : Int) - 52)
    rw [h, mul_comm] at hvalue
    exact_mod_cast hvalue
  rw [wholeSignificand, hnum]
  exact roundHalfEven_mul k (scaleRatio_den_pos _ _)

theorem wholeSignificand_mono {n m : Nat} (h : n ≤ m) (hlog : n.log2 = m.log2) :
    wholeSignificand n ≤ wholeSignificand m := by
  rw [wholeSignificand, wholeSignificand, hlog]
  cases (m.log2 : Int) - 52 with
  | ofNat k => exact roundHalfEven_mono h
  | negSucc k => exact roundHalfEven_mono (Nat.mul_le_mul_right _ h)

theorem le_wholeSignificand {n : Nat} (hn : n ≠ 0) : 2 ^ 52 ≤ wholeSignificand n := by
  have hle : 2 ^ 52 * (scaleRatio n 1 ((n.log2 : Int) - 52)).2 ≤
      (scaleRatio n 1 ((n.log2 : Int) - 52)).1 := by
    rw [mul_scaleRatio_le_iff]
    exact_mod_cast le_scaled_whole hn
  exact (roundHalfEven_mul _ (scaleRatio_den_pos _ _)).symm.trans_le (roundHalfEven_mono hle)

theorem wholeSignificand_le (n : Nat) : wholeSignificand n ≤ 2 ^ 53 := by
  have hle : (scaleRatio n 1 ((n.log2 : Int) - 52)).1 ≤
      2 ^ 53 * (scaleRatio n 1 ((n.log2 : Int) - 52)).2 := by
    rw [← @Nat.cast_le ℚ, scaleRatio_num, Nat.cast_mul, mul_comm ((2 ^ 53 : Nat) : ℚ)]
    exact mul_le_mul_of_nonneg_left (by exact_mod_cast scaled_whole_le n) (Nat.cast_nonneg _)
  exact (roundHalfEven_mono hle).trans_eq (roundHalfEven_mul _ (scaleRatio_den_pos _ _))

theorem nearest_whole {n : Nat} (hn : n ≠ 0) (hlog : n.log2 < 64) :
    binary64.nearest n 1 = (n.log2 + 1022) * 2 ^ 52 + wholeSignificand n := by
  have hbit : binary64.leadingBit = 2 ^ 52 := rfl
  have htop : binary64.infinity = 2047 * 2 ^ 52 := rfl
  have hleast : binary64.leastExponent = -1074 := rfl
  have hraised : ((n.log2 : Int) - 52 - -1074).toNat = n.log2 + 1022 := by omega
  have hle := wholeSignificand_le n
  simp only [BinaryFormat.nearest, if_neg hn, unitExponent_whole_eq hn, hleast, hraised, hbit,
    htop]
  change min ((n.log2 + 1022) * 2 ^ 52 + wholeSignificand n) _ = _
  omega

theorem value_nearest_whole {n : Nat} (hn : n ≠ 0) (hlog : n.log2 < 64) :
    binary64.value (binary64.nearest n 1) = wholeSignificand n * 2 ^ ((n.log2 : Int) - 52) := by
  have hbit : binary64.leadingBit = 2 ^ 52 := rfl
  have hleast : binary64.leastExponent = -1074 := rfl
  have hlow := le_wholeSignificand hn
  rw [nearest_whole hn hlog]
  rcases Nat.lt_or_eq_of_le (wholeSignificand_le n) with hlt | hcarry
  · obtain ⟨fraction, hfraction⟩ := Nat.exists_eq_add_of_le hlow
    have hmagnitude : (n.log2 + 1022) * 2 ^ 52 + wholeSignificand n =
        (n.log2 + 1022 + 1) * binary64.leadingBit + fraction := by
      rw [hbit]
      omega
    have hexp : (-1074 : Int) + ((n.log2 + 1022 : Nat) : Int) = (n.log2 : Int) - 52 := by omega
    rw [hmagnitude, binary64.value_mk_succ _ (by rw [hbit]; omega), hfraction, hbit, hleast, hexp,
      Nat.cast_add, add_comm (fraction : ℚ)]
  · have hmagnitude : (n.log2 + 1022) * 2 ^ 52 + wholeSignificand n =
        (n.log2 + 1023 + 1) * binary64.leadingBit + 0 := by
      rw [hbit]
      omega
    rw [hmagnitude, binary64.value_mk_succ _ (by rw [hbit]; omega), hcarry, hbit, hleast]
    have hexp : (-1074 : Int) + ((n.log2 + 1023 : Nat) : Int) = (n.log2 : Int) - 52 + 1 := by omega
    rw [hexp, zpow_add_one₀ (by norm_num)]
    push_cast
    ring

@[simp] theorem nearest_zero : binary64.nearest 0 1 = 0 := rfl

@[simp] theorem value_zero : binary64.value 0 = 0 := by
  rw [binary64.value_mk_zero (by decide)]
  simp

/-- A whole number is held exactly where its significand loses nothing. -/
theorem value_nearest_of_scaled {n k : Nat} (hn : n ≠ 0) (hlog : n.log2 < 64)
    (h : (n : ℚ) * 2 ^ (-((n.log2 : Int) - 52)) = k) :
    binary64.value (binary64.nearest n 1) = n := by
  rw [value_nearest_whole hn hlog, wholeSignificand_eq h, ← h, mul_assoc,
    ← zpow_add₀ (by norm_num), neg_add_cancel, zpow_zero, mul_one]

theorem value_nearest_of_le {n : Nat} (h : n ≤ 2 ^ 53) :
    binary64.value (binary64.nearest n 1) = n := by
  rcases eq_or_ne n 0 with rfl | hn
  · simp
  rcases Nat.lt_or_eq_of_le h with hlt | rfl
  · have hlog : n.log2 < 53 := (Nat.log2_lt hn).2 hlt
    refine value_nearest_of_scaled (k := n * 2 ^ (52 - n.log2)) hn (by omega) ?_
    have hexp : -((n.log2 : Int) - 52) = ((52 - n.log2 : Nat) : Int) := by omega
    rw [hexp, zpow_natCast]
    push_cast
    rfl
  · have hlog : Nat.log2 (2 ^ 53) = 53 := Nat.log2_two_pow
    refine value_nearest_of_scaled (k := 2 ^ 52) hn (by omega) ?_
    rw [hlog]
    norm_num

theorem binary64_significand_lt (magnitude : Nat) : (binary64.split magnitude).1 < 2 ^ 53 := by
  have hbit : binary64.leadingBit = 2 ^ 52 := rfl
  simp only [BinaryFormat.split, hbit]
  split
  · rename_i hfield
    have hlt : magnitude < 2 ^ 52 := Nat.lt_of_div_eq_zero (by decide) hfield
    exact hlt.trans (by decide)
  · have hlt : magnitude % 2 ^ 52 < 2 ^ 52 := Nat.mod_lt _ (by decide)
    omega

theorem nearest_of_value {n magnitude : Nat} (hlog : n.log2 < 64)
    (h : binary64.value magnitude = n) : binary64.nearest n 1 = magnitude := by
  refine binary64.value_strictMono.injective ?_
  rcases eq_or_ne n 0 with rfl | hn
  · rw [nearest_zero, value_zero, h, Nat.cast_zero]
  obtain ⟨significand, exponent, hsignificand, hvalue⟩ : ∃ (significand : Nat) (exponent : Int),
      significand < 2 ^ 53 ∧ binary64.value magnitude = significand * 2 ^ exponent :=
    ⟨_, _, binary64_significand_lt magnitude, rfl⟩
  have hexponent : (n.log2 : Int) - 52 ≤ exponent := by
    have hlt : (2 : ℚ) ^ (n.log2 : Int) < 2 ^ (53 + exponent) := by
      calc (2 : ℚ) ^ (n.log2 : Int) ≤ n := by
            rw [zpow_natCast]
            exact_mod_cast Nat.log2_self_le hn
        _ = significand * 2 ^ exponent := by rw [← h, hvalue]
        _ < 2 ^ 53 * 2 ^ exponent :=
            mul_lt_mul_of_pos_right (by exact_mod_cast hsignificand) (zpow_pos (by norm_num) _)
        _ = 2 ^ (53 + exponent) := by rw [zpow_add₀ (by norm_num)]; rfl
    have hlt := (zpow_lt_zpow_iff_right₀ (by norm_num)).1 hlt
    omega
  obtain ⟨shift, hshift⟩ := Int.eq_ofNat_of_zero_le (Int.sub_nonneg_of_le hexponent)
  rw [h]
  refine value_nearest_of_scaled (k := significand * 2 ^ shift) hn hlog ?_
  have hsum : exponent + -((n.log2 : Int) - 52) = (shift : Int) := by omega
  rw [← h, hvalue, mul_assoc, ← zpow_add₀ (by norm_num), hsum, zpow_natCast]
  push_cast
  rfl

theorem nearest_mono {n m : Nat} (h : n ≤ m) (hlog : m.log2 < 64) :
    binary64.nearest n 1 ≤ binary64.nearest m 1 := by
  rcases eq_or_ne n 0 with rfl | hn
  · exact Nat.zero_le _
  have hm : m ≠ 0 := by omega
  have hle : n.log2 ≤ m.log2 := (Nat.le_log2 hm).2 ((Nat.log2_self_le hn).trans h)
  rw [nearest_whole hn (by omega), nearest_whole hm hlog]
  rcases Nat.lt_or_eq_of_le hle with hlt | heq
  · have hn' := wholeSignificand_le n
    have hm' := le_wholeSignificand hm
    omega
  · rw [heq]
    exact Nat.add_le_add_left (wholeSignificand_mono h heq) _

theorem nearest_le_infinity (n : Nat) : binary64.nearest n 1 ≤ binary64.infinity := by
  rw [BinaryFormat.nearest]
  split
  · exact Nat.zero_le _
  · exact min_le_right _ _

/-! ## What doubles hold -/

inductive ExactNumber where
  | finite (q : ℚ)
  | infinite (negative : Bool)

def exactAt (place : Int) : ExactNumber :=
  if place.natAbs = binary64.infinity then .infinite (place < 0)
  else .finite (if place < 0 then -binary64.value place.natAbs else binary64.value place.natAbs)

theorem value_natAbs_pos {place : Int} (h : place ≠ 0) : 0 < binary64.value place.natAbs := by
  rw [← value_zero]
  exact binary64.value_strictMono (Int.natAbs_pos.2 h)

theorem value_nonneg (magnitude : Nat) : 0 ≤ binary64.value magnitude := by
  rw [← value_zero]
  exact binary64.value_strictMono.monotone (Nat.zero_le _)

theorem exactAt_injective : Function.Injective exactAt := by
  intro p q h
  have hfinite : ∀ r s : ℚ, ExactNumber.finite r = .finite s → r = s := by
    intro r s hrs
    cases hrs
    rfl
  rw [exactAt, exactAt] at h
  by_cases hp : p.natAbs = binary64.infinity <;> by_cases hq : q.natAbs = binary64.infinity
  · simp only [if_pos hp, if_pos hq, ExactNumber.infinite.injEq, decide_eq_decide] at h
    omega
  · rw [if_pos hp, if_neg hq] at h
    cases h
  · rw [if_neg hp, if_pos hq] at h
    cases h
  rw [if_neg hp, if_neg hq] at h
  have hvalue := hfinite _ _ h
  have hpos : ∀ r : Int, r < 0 → 0 < binary64.value r.natAbs := fun r hr => value_natAbs_pos hr.ne
  have hplace : binary64.value p.natAbs = binary64.value q.natAbs → p.natAbs = q.natAbs :=
    fun heq => binary64.value_strictMono.injective heq
  have hnonneg := value_nonneg p.natAbs
  have hnonneg' := value_nonneg q.natAbs
  by_cases hp0 : p < 0 <;> by_cases hq0 : q < 0
  · rw [if_pos hp0, if_pos hq0, neg_inj] at hvalue
    have habs := hplace hvalue
    omega
  · rw [if_pos hp0, if_neg hq0] at hvalue
    linarith [hpos p hp0]
  · rw [if_neg hp0, if_pos hq0] at hvalue
    linarith [hpos q hq0]
  · rw [if_neg hp0, if_neg hq0] at hvalue
    have habs := hplace hvalue
    omega

def exactDouble? (x : Float) : Option ExactNumber :=
  if x.isNaN then none else some (exactAt (place x))

theorem exactDouble?_of_isNaN {x : Float} (h : x.isNaN = true) : exactDouble? x = none := by
  rw [exactDouble?, if_pos h]

theorem exactDouble?_of_number {x : Float} (h : x.isNaN = false) :
    exactDouble? x = some (exactAt (place x)) := by
  rw [exactDouble?, h]
  rfl

theorem beq_iff_exact {x y : Float} :
    (x == y) = true ↔ ∃ q, exactDouble? x = some q ∧ exactDouble? y = some q := by
  cases hx : x.isNaN with
  | true => simp [beq_of_isNaN_left hx, exactDouble?_of_isNaN hx]
  | false =>
      cases hy : y.isNaN with
      | true => simp [beq_of_isNaN_right hy, exactDouble?_of_isNaN hy]
      | false =>
          rw [beq_iff_place hx hy, ← exactAt_injective.eq_iff, exactDouble?_of_number hx,
            exactDouble?_of_number hy]
          simp [eq_comm]

/-! ## Widened integers -/

theorem natAbs_toInt_lt (i : Int64) : i.toInt.natAbs < UInt64.size := by
  have hlow := i.le_toInt
  have hhigh := i.toInt_lt
  rw [UInt64.size]
  omega

theorem natAbs_log2_lt (i : Int64) : i.toInt.natAbs.log2 < 64 := by
  rcases eq_or_ne i.toInt.natAbs 0 with h | h
  · rw [h]
    decide
  · exact (Nat.log2_lt h).2 (natAbs_toInt_lt i)

theorem doubleParts_widen (i : Int64) :
    doubleParts (widen i) = (decide (i.toInt < 0), binary64.nearest i.toInt.natAbs 1) :=
  doubleParts_doubleOf _ (nearest_le_infinity _)

theorem isNaN_widen (i : Int64) : (widen i).isNaN = false := by
  rw [isNaN_eq_false_iff, doubleParts_widen]
  exact nearest_le_infinity _

theorem place_widen (i : Int64) :
    place (widen i) = placeOf (i.toInt < 0) (binary64.nearest i.toInt.natAbs 1) := by
  rw [place, doubleParts_widen]

theorem place_widen_mono {i j : Int64} (h : i.toInt ≤ j.toInt) :
    place (widen i) ≤ place (widen j) := by
  rw [place_widen, place_widen]
  by_cases hi : i.toInt < 0
  · by_cases hj : j.toInt < 0
    · have hle := nearest_mono (n := j.toInt.natAbs) (m := i.toInt.natAbs) (by omega)
        (natAbs_log2_lt i)
      simp only [hi, hj, decide_true, placeOf_true]
      omega
    · simp only [hi, hj, decide_true, decide_false, placeOf_true, placeOf_false]
      omega
  · have hj : ¬j.toInt < 0 := by omega
    have hle := nearest_mono (n := i.toInt.natAbs) (m := j.toInt.natAbs) (by omega)
      (natAbs_log2_lt j)
    simp only [hi, hj, decide_false, placeOf_false]
    omega

theorem natAbs_cast_of_neg {i : Int} (h : i < 0) : (i.natAbs : ℚ) = -i := by
  rw [Nat.cast_natAbs, abs_of_neg h, Int.cast_neg]

theorem natAbs_cast_of_nonneg {i : Int} (h : 0 ≤ i) : (i.natAbs : ℚ) = i := by
  rw [Nat.cast_natAbs, abs_of_nonneg h]

theorem exactDouble?_widen {i : Int64} (h : i.toInt.natAbs ≤ 2 ^ 53) :
    exactDouble? (widen i) = some (.finite i.toInt) := by
  have hvalue := value_nearest_of_le h
  have hbound := nearest_whole_lt (natAbs_toInt_lt i)
  have htop : binary64.infinity = 2047 * 2 ^ 52 := rfl
  rw [exactDouble?_of_number (isNaN_widen i), place_widen, exactAt]
  by_cases hi : i.toInt < 0
  · have hpos : 0 < binary64.nearest i.toInt.natAbs 1 := by
      refine Nat.pos_of_ne_zero fun hzero => ?_
      rw [hzero, value_zero] at hvalue
      have hnone : i.toInt.natAbs = 0 := by exact_mod_cast hvalue.symm
      omega
    simp only [hi, decide_true, placeOf_true, Int.natAbs_neg, Int.natAbs_natCast, hvalue,
      natAbs_cast_of_neg hi, neg_neg]
    rw [if_neg (by omega), if_pos (by omega)]
  · simp only [hi, decide_false, placeOf_false, Int.natAbs_natCast, hvalue,
      natAbs_cast_of_nonneg (not_lt.1 hi)]
    rw [if_neg (by omega), if_neg (by omega)]

theorem place_widen_of_exact {i : Int64} {x : Float}
    (h : exactDouble? x = some (.finite i.toInt)) : place (widen i) = place x := by
  have hnonneg := value_nonneg (place x).natAbs
  have hexact : (if place x < 0 then -binary64.value (place x).natAbs
      else binary64.value (place x).natAbs) = i.toInt := by
    rw [exactDouble?] at h
    split at h
    · cases h
    rw [Option.some.injEq, exactAt] at h
    split at h
    · cases h
    · exact ExactNumber.finite.inj h
  by_cases hplace : place x < 0
  · rw [if_pos hplace] at hexact
    have hpos := value_natAbs_pos hplace.ne
    have hneg : i.toInt < 0 := by
      have hlt : (i.toInt : ℚ) < 0 := by linarith
      exact_mod_cast hlt
    have hvalue : binary64.value (place x).natAbs = i.toInt.natAbs := by
      linarith [natAbs_cast_of_neg hneg]
    rw [place_widen, nearest_of_value (natAbs_log2_lt i) hvalue, decide_eq_true hneg, placeOf_true]
    omega
  · rw [if_neg hplace] at hexact
    have hneg : 0 ≤ i.toInt := by
      have hle : (0 : ℚ) ≤ i.toInt := by linarith
      exact_mod_cast hle
    have hvalue : binary64.value (place x).natAbs = i.toInt.natAbs := by
      linarith [natAbs_cast_of_nonneg hneg]
    rw [place_widen, nearest_of_value (natAbs_log2_lt i) hvalue,
      decide_eq_false (not_lt.2 hneg), placeOf_false]
    omega

end Nodeflow
