import Nodeflow.Proofs.Number.Packing

/-!
# Subtraction keeps the order

Rounding to nearest is monotone, so two floats from which the same is taken stay in their
order.  With the infinities at the two ends, and what is no number beside the upper one, that
holds of all floats: neither an overflow nor an infinite step turns the order round.
-/

namespace Nodeflow

open Float.Model UnpackedFloat

variable {f : Format}

/-! ## Rounding is monotone -/

theorem Dyadic.neg {j : ℤ} {q : ℚ} (h : Dyadic j q) : Dyadic j (-q) := by
  have hneg := Dyadic.zero.sub h
  rwa [zero_sub] at hneg

theorem gridExponent_neg (q : ℚ) : gridExponent f (-q) = gridExponent f q := by
  rw [gridExponent, gridExponent, abs_neg]

@[simp] theorem numberOf_unpackedNeg (u : UnpackedFloat) : numberOf u.neg = -numberOf u := by
  cases u with
  | infinity s => simp [UnpackedFloat.neg, numberOf]
  | notANumber => simp [UnpackedFloat.neg, numberOf]
  | zero s => simp [UnpackedFloat.neg, numberOf]
  | finite s m e hm => exact numberOf_neg s m e hm

theorem Canonical.neg {u : UnpackedFloat} (h : Canonical f u) : Canonical f u.neg := by
  cases u <;> exact h

namespace Nearest

variable {q r : ℚ} {u v : UnpackedFloat}

theorem neg (h : Nearest f q u) : Nearest f (-q) u.neg where
  finite := by
    have hfinite := h.finite
    cases u <;> first | rfl | contradiction
  canonical := h.canonical.neg
  dyadic := by
    rw [numberOf_unpackedNeg, gridExponent_neg]
    exact h.dyadic.neg
  error := by
    have hsame : -numberOf u - -q = -(numberOf u - q) := by ring
    rw [numberOf_unpackedNeg, hsame, abs_neg, spacing, gridExponent_neg]
    exact h.error

theorem mono_of_pos (hu : Nearest f q u) (hv : Nearest f r v) (hq : 0 < q) (hlt : q < r) :
    numberOf u ≤ numberOf v := by
  have hr : 0 < r := hq.trans hlt
  have hgrid := gridExponent_mono (f := f) hq.ne' (abs_le_abs_of_nonneg hq.le hlt.le)
  rcases hgrid.lt_or_eq with hcoarser | hsame
  · -- The least power of two with the spacing of the larger one stands between the two.
    have hexponent : f.minExponent < gridExponent f r :=
      (minExponent_le_gridExponent q).trans_lt hcoarser
    have hpower : (2 : ℚ) ^ f.mantissaBitsWithoutImplicit * spacing f r =
        2 ^ (f.mantissaBitsWithoutImplicit + gridExponent f r) := by
      rw [spacing, ← zpow_natCast, ← zpow_add₀ two_ne_zero]
    have hle : (2 : ℚ) ^ (f.mantissaBitsWithoutImplicit + gridExponent f r) ≤ r := by
      rw [← hpower]
      exact (spacing_le_abs hr.ne' hexponent).trans_eq (abs_of_pos hr)
    have hge : q ≤ (2 : ℚ) ^ (f.mantissaBitsWithoutImplicit + gridExponent f r) := by
      have hfits := abs_lt_spacing (f := f) (q := q)
      rw [abs_of_pos hq, spacing, ← zpow_natCast, ← zpow_add₀ two_ne_zero] at hfits
      refine hfits.le.trans (zpow_le_zpow_right₀ one_le_two ?_)
      unfold Format.mantissaBits
      omega
    have hdyadic : Dyadic (gridExponent f r)
        (2 ^ (f.mantissaBitsWithoutImplicit + gridExponent f r)) :=
      .two_zpow (by omega)
    exact (hu.numberOf_le (hdyadic.of_le hcoarser.le) hge).trans (hv.le_numberOf hdyadic hle)
  · by_contra! hgt
    have hgap : spacing f q ≤ numberOf u - numberOf v :=
      (hu.dyadic.sub (hsame ▸ hv.dyadic)).le_of_pos (sub_pos.2 hgt)
    have hspacing : spacing f r = spacing f q := by rw [spacing, spacing, hsame]
    have hright := hv.error
    rw [hspacing] at hright
    linarith [(abs_le.1 hu.error).2, (abs_le.1 hright).1]

/-- Rounding to nearest is monotone. -/
theorem mono (hu : Nearest f q u) (hv : Nearest f r v) (hlt : q < r) :
    numberOf u ≤ numberOf v := by
  rcases lt_or_ge 0 q with hq | hq
  · exact hu.mono_of_pos hv hq hlt
  · rcases lt_or_ge r 0 with hr | hr
    · have hneg := hv.neg.mono_of_pos hu.neg (neg_pos.2 hr) (neg_lt_neg hlt)
      rwa [numberOf_unpackedNeg, numberOf_unpackedNeg, neg_le_neg_iff] at hneg
    · exact (hu.nonpos hq).trans (hv.le_numberOf .zero hr)

end Nearest

/-! ## Exact numbers of differences -/

theorem Canonical.eq_of_numberOf_eq {u v : UnpackedFloat} (hu : Canonical f u)
    (hv : Canonical f v) (hne : numberOf u ≠ 0) (heq : numberOf u = numberOf v) : u = v := by
  cases u with
  | infinity s => exact absurd rfl hne
  | notANumber => exact absurd rfl hne
  | zero s => exact absurd rfl hne
  | finite s m e hm =>
      cases v with
      | infinity s' => exact absurd heq hne
      | notANumber => exact absurd heq hne
      | zero s' => exact absurd heq hne
      | finite s' m' e' hm' =>
          have hexponent : e = e' := by
            have hgrid := congrArg (gridExponent f) heq
            rwa [numberOf, numberOf, gridExponent_signed s hm.ne', gridExponent_signed s' hm'.ne',
              ← hu, ← hv] at hgrid
          subst hexponent
          have hsigned : s.apply m = s'.apply m' := by
            exact_mod_cast mul_right_cancel₀ (two_zpow_pos e).ne' heq
          cases s <;> cases s' <;> simp only [Sign.apply] at hsigned
          · obtain rfl : m = m' := by omega
            rfl
          · omega
          · omega
          · obtain rfl : m = m' := by omega
            rfl

section Sub

variable {u v w : UnpackedFloat} (hu : u.isFinite = true) (hv : v.isFinite = true)
  (hw : w.isFinite = true) (hcu : Canonical f u) (hcv : Canonical f v) (hcw : Canonical f w)

include hu hv hw hcu hcv hcw in
theorem numberOf_sub_congr (heq : numberOf u = numberOf v) :
    numberOf (UnpackedFloat.sub f u w) = numberOf (UnpackedFloat.sub f v w) := by
  by_cases hzero : numberOf u = 0
  · have hleft := nearest_sub hu hw hcu hcw
    have hright := nearest_sub hv hw hcv hcw
    rw [hzero, zero_sub] at hleft
    rw [← heq, hzero, zero_sub] at hright
    have hdyadic : Dyadic (gridExponent f (-numberOf w)) (-numberOf w) := by
      rw [gridExponent_neg]
      exact hcw.dyadic.neg
    rw [hleft.numberOf_eq hdyadic, hright.numberOf_eq hdyadic]
  · rw [hcu.eq_of_numberOf_eq hcv hzero heq]

include hu hv hw hcu hcv hcw in
theorem numberOf_sub_mono (hle : numberOf u ≤ numberOf v) :
    numberOf (UnpackedFloat.sub f u w) ≤ numberOf (UnpackedFloat.sub f v w) := by
  rcases hle.lt_or_eq with hlt | heq
  · exact (nearest_sub hu hw hcu hcw).mono (nearest_sub hv hw hcv hcw) (sub_lt_sub_right hlt _)
  · exact (numberOf_sub_congr hu hv hw hcu hcv hcw heq).le

include hu hw hcu hcw in
theorem numberOf_sub_le (hnonneg : 0 ≤ numberOf w) :
    numberOf (UnpackedFloat.sub f u w) ≤ numberOf u := by
  have hsub := nearest_sub hu hw hcu hcw
  rcases hnonneg.lt_or_eq with hpos | hzero
  · exact hsub.mono (.self hu hcu) (sub_lt_self _ hpos)
  · rw [← hzero, sub_zero] at hsub
    exact (hsub.numberOf_eq hcu.dyadic).le

end Sub

/-! ## All floats in a row -/

/-- The number of a float among those of all floats.  What is no number stands at the upper
end. -/
def extended : UnpackedFloat → WithBot (WithTop ℚ)
  | .infinity .negative => ⊥
  | .infinity .positive => ⊤
  | .notANumber => ⊤
  | .zero s => (numberOf (.zero s) : WithTop ℚ)
  | .finite s m e hm => (numberOf (.finite s m e hm) : WithTop ℚ)

theorem extended_of_finite {u : UnpackedFloat} (hu : u.isFinite = true) :
    extended u = (numberOf u : WithTop ℚ) := by
  cases u <;> first | rfl | contradiction

theorem extended_le_extended_iff {u v : UnpackedFloat} (hu : u.isFinite = true)
    (hv : v.isFinite = true) : extended u ≤ extended v ↔ numberOf u ≤ numberOf v := by
  rw [extended_of_finite hu, extended_of_finite hv, WithBot.coe_le_coe, WithTop.coe_le_coe]

/-! ## Through the bits -/

variable (f) in
def stored (u : UnpackedFloat) : UnpackedFloat :=
  UnpackedFloat.unpack f (UnpackedFloat.pack f u)

theorem quiet_ne_zero : 1#f.mantissaBitsWithoutImplicit <<< (f.mantissaBitsWithoutImplicit - 1) ≠
    0#f.mantissaBitsWithoutImplicit := by
  have hlt : 2 ^ (f.mantissaBitsWithoutImplicit - 1) < 2 ^ f.mantissaBitsWithoutImplicit :=
    Nat.pow_lt_pow_right one_lt_two (Nat.sub_one_lt f.hm.ne')
  have hone : 1 < 2 ^ f.mantissaBitsWithoutImplicit := Nat.one_lt_two_pow f.hm.ne'
  rw [Ne, ← BitVec.toNat_inj, BitVec.toNat_shiftLeft, BitVec.toNat_ofNat, BitVec.toNat_ofNat,
    Nat.mod_eq_of_lt hone, Nat.shiftLeft_eq, one_mul, Nat.mod_eq_of_lt hlt, Nat.zero_mod]
  exact (Nat.two_pow_pos _).ne'

@[simp] theorem stored_infinity (s : Sign) : stored f (.infinity s) = .infinity s := by
  simp [stored, UnpackedFloat.pack, packedInfinity, UnpackedFloat.unpack]

@[simp] theorem stored_notANumber : stored f .notANumber = .notANumber := by
  simp [stored, UnpackedFloat.pack, packedNaN, UnpackedFloat.unpack, quiet_ne_zero]

section Overflow

variable {u v : UnpackedFloat}

theorem inRange_neg : InRange f u.neg ↔ InRange f u := by
  cases u <;> exact Iff.rfl

theorem extended_stored_of_not_inRange (hr : ¬InRange f u) :
    0 < numberOf u ∧ extended (stored f u) = ⊤ ∨
      numberOf u < 0 ∧ extended (stored f u) = ⊥ := by
  cases u with
  | infinity s => exact absurd trivial hr
  | notANumber => exact absurd trivial hr
  | zero s => exact absurd trivial hr
  | finite s m e hm =>
      have hpos : (0 : ℚ) < m * 2 ^ e := mul_pos (Nat.cast_pos.2 hm) (two_zpow_pos e)
      rw [stored, unpack_pack_overflow hr]
      cases s with
      | positive => exact .inl ⟨hpos, rfl⟩
      | negative =>
          refine .inr ⟨?_, rfl⟩
          rw [← neg_pos, ← numberOf_unpackedNeg]
          exact hpos

theorem extended_stored_mono (hu : u.isFinite = true) (hv : v.isFinite = true)
    (hcu : Canonical f u) (hcv : Canonical f v) (hle : numberOf u ≤ numberOf v) :
    extended (stored f u) ≤ extended (stored f v) := by
  by_cases hru : InRange f u
  · by_cases hrv : InRange f v
    · rw [stored, stored, unpack_pack hu hcu hru, unpack_pack hv hcv hrv,
        extended_le_extended_iff hu hv]
      exact hle
    · rcases extended_stored_of_not_inRange hrv with ⟨-, htop⟩ | ⟨hneg, -⟩
      · rw [htop]
        exact le_top
      · have hmirror : numberOf v.neg ≤ numberOf u.neg := by
          rw [numberOf_unpackedNeg, numberOf_unpackedNeg]
          exact neg_le_neg hle
        have hpos : 0 < numberOf v.neg := by
          rw [numberOf_unpackedNeg]
          exact neg_pos.2 hneg
        have hrange := inRange_of_le hcv.neg hcu.neg hpos hmirror (inRange_neg.2 hru)
        exact absurd (inRange_neg.1 hrange) hrv
  · rcases extended_stored_of_not_inRange hru with ⟨hpos, -⟩ | ⟨-, hbot⟩
    · have hrv : ¬InRange f v := fun hrv => hru (inRange_of_le hcu hcv hpos hle hrv)
      rcases extended_stored_of_not_inRange hrv with ⟨-, htop⟩ | ⟨hneg, -⟩
      · rw [htop]
        exact le_top
      · exact absurd (hpos.trans_le hle) hneg.not_gt
    · rw [hbot]
      exact bot_le

end Overflow

/-! ## Differences of any floats -/

section Difference

variable {u v w : UnpackedFloat}

theorem isFinite_of_extended (hbot : extended u ≠ ⊥) (htop : extended u ≠ ⊤) :
    u.isFinite = true := by
  cases u with
  | infinity s => cases s <;> contradiction
  | notANumber => contradiction
  | zero s => rfl
  | finite s m e hm => rfl

theorem extended_eq_bot_iff : extended u = ⊥ ↔ u = .infinity .negative := by
  cases u with
  | infinity s => cases s <;> simp [extended]
  | notANumber => simp [extended]
  | zero s => simp [extended]
  | finite s m e hm => simp [extended]

theorem extended_sub_of_top (h : extended v = ⊤) :
    extended (stored f (UnpackedFloat.sub f v w)) = ⊤ := by
  have hsub : UnpackedFloat.sub f v w = .infinity .positive ∨
      UnpackedFloat.sub f v w = .notANumber := by
    cases v with
    | infinity s =>
        cases s with
        | positive =>
            cases w with
            | infinity s =>
                cases s with
                | positive => exact .inr rfl
                | negative => exact .inl rfl
            | notANumber => exact .inr rfl
            | zero s => exact .inl rfl
            | finite s m e hm => exact .inl rfl
        | negative => simp [extended] at h
    | notANumber => exact .inr rfl
    | zero s => simp [extended] at h
    | finite s m e hm => simp [extended] at h
  rcases hsub with hsub | hsub <;> simp [hsub, extended]

theorem extended_sub_of_bot (h : extended u = ⊥) (hw : w.isFinite = true) :
    extended (stored f (UnpackedFloat.sub f u w)) = ⊥ := by
  have hsub : UnpackedFloat.sub f u w = .infinity .negative := by
    rw [extended_eq_bot_iff.1 h]
    cases w <;> first | rfl | contradiction
  simp [hsub, extended]

theorem extended_sub_infinity (h : extended u ≠ ⊤) :
    extended (stored f (UnpackedFloat.sub f u (.infinity .positive))) = ⊥ := by
  have hsub : UnpackedFloat.sub f u (.infinity .positive) = .infinity .negative := by
    cases u with
    | infinity s =>
        cases s with
        | positive => exact absurd rfl h
        | negative => rfl
    | notANumber => exact absurd rfl h
    | zero s => rfl
    | finite s m e hm => rfl
  simp [hsub, extended]

theorem extended_sub_neg_infinity (u : UnpackedFloat) :
    extended (stored f (UnpackedFloat.sub f u (.infinity .negative))) = ⊤ := by
  have hsub : UnpackedFloat.sub f u (.infinity .negative) = .infinity .positive ∨
      UnpackedFloat.sub f u (.infinity .negative) = .notANumber := by
    cases u with
    | infinity s =>
        cases s with
        | positive => exact .inl rfl
        | negative => exact .inr rfl
    | notANumber => exact .inr rfl
    | zero s => exact .inl rfl
    | finite s m e hm => exact .inl rfl
  rcases hsub with hsub | hsub <;> simp [hsub, extended]

theorem extended_sub_notANumber (u : UnpackedFloat) :
    extended (stored f (UnpackedFloat.sub f u .notANumber)) = ⊤ := by
  have hsub : UnpackedFloat.sub f u .notANumber = .notANumber := by
    cases u <;> rfl
  simp [hsub, extended]

theorem extended_sub_mono_of_finite (hcu : Canonical f u) (hcv : Canonical f v)
    (hcw : Canonical f w) (hw : w.isFinite = true) (htop : extended v ≠ ⊤)
    (hle : extended u ≤ extended v) :
    extended (stored f (UnpackedFloat.sub f u w)) ≤
      extended (stored f (UnpackedFloat.sub f v w)) := by
  by_cases hbot : extended u = ⊥
  · rw [extended_sub_of_bot hbot hw]
    exact bot_le
  · have hu := isFinite_of_extended hbot (ne_top_of_le_ne_top htop hle)
    have hv := isFinite_of_extended (ne_bot_of_le_ne_bot hbot hle) htop
    have hleft := nearest_sub hu hw hcu hcw
    have hright := nearest_sub hv hw hcv hcw
    refine extended_stored_mono hleft.finite hright.finite hleft.canonical hright.canonical ?_
    exact numberOf_sub_mono hu hv hw hcu hcv hcw ((extended_le_extended_iff hu hv).1 hle)

theorem extended_sub_mono (hcu : Canonical f u) (hcv : Canonical f v) (hcw : Canonical f w)
    (hle : extended u ≤ extended v) :
    extended (stored f (UnpackedFloat.sub f u w)) ≤
      extended (stored f (UnpackedFloat.sub f v w)) := by
  by_cases htop : extended v = ⊤
  · rw [extended_sub_of_top htop]
    exact le_top
  · cases w with
    | infinity s =>
        cases s with
        | positive =>
            rw [extended_sub_infinity (ne_top_of_le_ne_top htop hle)]
            exact bot_le
        | negative =>
            rw [extended_sub_neg_infinity v]
            exact le_top
    | notANumber =>
        rw [extended_sub_notANumber v]
        exact le_top
    | zero s => exact extended_sub_mono_of_finite hcu hcv hcw rfl htop hle
    | finite s m e hm => exact extended_sub_mono_of_finite hcu hcv hcw rfl htop hle

theorem extended_sub_le_of_finite (hcu : Canonical f u) (hcw : Canonical f w)
    (hru : InRange f u) (hw : w.isFinite = true) (hnonneg : 0 ≤ numberOf w)
    (htop : extended u ≠ ⊤) : extended (stored f (UnpackedFloat.sub f u w)) ≤ extended u := by
  by_cases hbot : extended u = ⊥
  · rw [extended_sub_of_bot hbot hw]
    exact bot_le
  · have hu := isFinite_of_extended hbot htop
    have hsub := nearest_sub hu hw hcu hcw
    have hle := extended_stored_mono hsub.finite hu hsub.canonical hcu
      (numberOf_sub_le hu hw hcu hcw hnonneg)
    rwa [stored, stored, unpack_pack hu hcu hru] at hle

theorem extended_sub_le (hcu : Canonical f u) (hcw : Canonical f w) (hru : InRange f u)
    (hw : UnpackedFloat.le (.zero .positive) w = true) :
    extended (stored f (UnpackedFloat.sub f u w)) ≤ extended u := by
  by_cases htop : extended u = ⊤
  · rw [htop]
    exact le_top
  · cases w with
    | infinity s =>
        cases s with
        | positive =>
            rw [extended_sub_infinity htop]
            exact bot_le
        | negative => contradiction
    | notANumber => contradiction
    | zero s => exact extended_sub_le_of_finite hcu hcw hru rfl le_rfl htop
    | finite s m e hm =>
        cases s with
        | positive =>
            have hpos : (0 : ℚ) < m * 2 ^ e := mul_pos (Nat.cast_pos.2 hm) (two_zpow_pos e)
            exact extended_sub_le_of_finite hcu hcw hru rfl hpos.le htop
        | negative => contradiction

theorem le_zero_iff_extended {u : UnpackedFloat} (z : Sign) :
    u.le (.zero z) = true ↔ extended u ≤ 0 := by
  have hzero : ¬(⊤ : WithBot (WithTop ℚ)) ≤ 0 := fun h =>
    WithTop.zero_ne_top (WithBot.coe_injective (top_le_iff.1 h))
  cases u with
  | infinity s =>
      cases s with
      | positive => exact iff_of_false nofun hzero
      | negative => exact iff_of_true rfl bot_le
  | notANumber => exact iff_of_false nofun hzero
  | zero s =>
      rw [le_zero_iff rfl, extended_of_finite rfl]
      norm_cast
  | finite s m e hm =>
      rw [le_zero_iff rfl, extended_of_finite rfl]
      norm_cast

end Difference

/-! ## Singles -/

def extendedSingle (x : Float32) : WithBot (WithTop ℚ) :=
  extended x.toModel.unpack

variable {x y dt : Float32}

theorem single_sub_mono (h : extendedSingle x ≤ extendedSingle y) :
    extendedSingle (x - dt) ≤ extendedSingle (y - dt) :=
  extended_sub_mono (canonical_single x) (canonical_single y) (canonical_single dt) h

theorem single_sub_le (h : 0 ≤ dt) : extendedSingle (x - dt) ≤ extendedSingle x := by
  have hzero : (0 : Float32).toModel.unpack = .zero .positive := by rfl
  apply extended_sub_le (canonical_single x) (canonical_single dt) (inRange_unpack (by decide) _)
  rw [← hzero]
  exact of_decide_eq_true h

theorem single_le_zero_iff_extended : x ≤ 0 ↔ extendedSingle x ≤ 0 := by
  rw [single_le_zero_iff, le_zero_iff_extended, extendedSingle]

end Nodeflow
