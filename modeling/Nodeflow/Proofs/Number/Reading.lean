import Mathlib
import Nodeflow.Json.Number
import Nodeflow.Proofs.Number.Finite
import Nodeflow.Proofs.Number.Shortest

/-!
# Saved singles are numbers to the reader

The reader of numerals fails only where it scales up beyond the greatest double.  What a
numeral scales up by is at most its digits before the point and its exponent, and for the
shortest digits of a finite single that is little.  So a finite single, once saved, is read
as some double; an infinite one has no numeral at all.
-/

namespace Nodeflow

open Float.Model UnpackedFloat

/-! ## Reading numerals -/

namespace Numeral

theorem significand_keepWhole {kept : Kept} (h : kept.significand < UInt64.size)
    (cs : List Char) : (keepWhole kept cs).significand < UInt64.size := by
  induction cs generalizing kept with
  | nil => exact h
  | cons c cs ih =>
      simp only [keepWhole]
      split
      · exact ih ‹_›
      · exact h

theorem significand_keepFraction {kept : Kept} (h : kept.significand < UInt64.size)
    (cs : List Char) : (keepFraction kept cs).significand < UInt64.size := by
  induction cs generalizing kept with
  | nil => exact h
  | cons c cs ih =>
      simp only [keepFraction]
      split
      · exact ih ‹_›
      · exact h

theorem exponent_keepWhole_le (kept : Kept) (cs : List Char) :
    (keepWhole kept cs).exponent ≤ kept.exponent + cs.length := by
  induction cs generalizing kept with
  | nil => simp [keepWhole]
  | cons c cs ih =>
      simp only [keepWhole, List.length_cons, Nat.cast_add, Nat.cast_one]
      split
      · exact (ih _).trans (by dsimp only; omega)
      · exact le_rfl

theorem exponent_keepFraction_le (kept : Kept) (cs : List Char) :
    (keepFraction kept cs).exponent ≤ kept.exponent := by
  induction cs generalizing kept with
  | nil => exact le_rfl
  | cons c cs ih =>
      simp only [keepFraction]
      split
      · exact (ih _).trans (by dsimp only; omega)
      · exact le_rfl

theorem isSome_scaleDouble? {n : Nat} (hn : n < UInt64.size) {e : Int} (he : e ≤ 40) :
    (scaleDouble? (doubleOfInt n) e).isSome = true := by
  cases e with
  | ofNat k =>
      have hk : k ≤ 40 := by rw [Int.ofNat_eq_natCast] at he; omega
      simp only [scaleDouble?, if_pos (show k ≤ 308 by omega), isFinite_scaled hn hk, if_true,
        Option.isSome_some]
  | negSucc k =>
      simp only [scaleDouble?]
      split
      · rfl
      · split <;> rfl

theorem isSome_toDouble? {n : Numeral} (h : n.whole.length + n.exponentValue ≤ 40) :
    n.toDouble?.isSome = true := by
  have hwhole := exponent_keepWhole_le ⟨0, 0⟩ n.whole
  have hfraction := exponent_keepFraction_le (keepWhole ⟨0, 0⟩ n.whole) n.fraction
  have hkept := significand_keepFraction
    (significand_keepWhole (show (Kept.mk 0 0).significand < _ by decide) n.whole) n.fraction
  have hexp : (keepFraction (keepWhole ⟨0, 0⟩ n.whole) n.fraction).exponent +
      n.exponentValue ≤ 40 := by
    dsimp only at hwhole
    omega
  obtain ⟨x, hx⟩ := Option.isSome_iff_exists.1 (isSome_scaleDouble? hkept hexp)
  rw [toDouble?, Option.bind_eq_bind, hx]
  rfl

theorem exponentValue_nil (negative : Bool) (whole fraction : List Char) :
    exponentValue ⟨negative, whole, fraction, []⟩ = 0 := rfl

theorem exponentValue_le {sign : List Char} (hsign : sign ∈ [[], ['+'], ['-']]) (negative : Bool)
    (whole fraction : List Char) (e : Int) (hneg : e < 0 → sign = ['-']) :
    exponentValue ⟨negative, whole, fraction, sign ++ Nat.toDigits 10 e.natAbs⟩ ≤ max e 0 := by
  have hvalue := digitsValue_toDigits e.natAbs
  have hdigits := isDigits_toDigits e.natAbs
  simp only [List.mem_cons, List.not_mem_nil, or_false] at hsign
  rcases hsign with rfl | rfl | rfl
  · have hpos : 0 ≤ e := Int.not_lt.1 fun h => absurd (hneg h) nofun
    simp only [exponentValue, List.nil_append]
    split
    · rename_i heq
      rw [heq] at hdigits
      exact absurd (hdigits '-' List.mem_cons_self) (by decide)
    · rename_i heq
      rw [heq] at hdigits
      exact absurd (hdigits '+' List.mem_cons_self) (by decide)
    · omega
  · have hpos : 0 ≤ e := Int.not_lt.1 fun h => absurd (hneg h) (by decide)
    simp only [exponentValue, List.cons_append, List.nil_append, hvalue]
    omega
  · simp only [exponentValue, List.cons_append, List.nil_append, hvalue]
    omega

end Numeral

/-! ## Saved singles -/

theorem DecimalLayout.isSome_toDouble?_positive (layout : DecimalLayout) (negative : Bool)
    {digits : Nat} {k : Int} (h : k + (Nat.toDigits 10 digits).length - 1 < 39) :
    (layout.positive negative digits k).toDouble?.isSome = true := by
  refine Numeral.isSome_toDouble? ?_
  rcases layout.positive_cases negative digits k rfl rfl with
    ⟨-, heq⟩ | ⟨-, hlen, heq⟩ | ⟨-, -, heq⟩ | ⟨sign, hsign, hneg, heq⟩
  all_goals rw [heq]
  · rw [Numeral.exponentValue_nil, List.length_singleton]
    omega
  · rw [Numeral.exponentValue_nil, List.length_append, zeros, List.length_replicate]
    omega
  · rw [Numeral.exponentValue_nil, List.length_take]
    omega
  · have := Numeral.exponentValue_le hsign negative ((Nat.toDigits 10 digits).take 1)
      ((Nat.toDigits 10 digits).drop 1) _ hneg
    simp only [List.length_take] at this ⊢
    omega

theorem DecimalLayout.isSome_toDouble?_finite (layout : DecimalLayout) (negative : Bool)
    {magnitude : Nat} (h : magnitude < binary32.infinity) :
    (layout.finite binary32 negative magnitude).toDouble?.isSome = true := by
  rw [finite]
  split
  · refine Numeral.isSome_toDouble? ?_
    rw [Numeral.exponentValue_nil, List.length_singleton]
    omega
  · rename_i hne
    exact layout.isSome_toDouble?_positive negative
      (BinaryFormat.binary32_first_lt layout.tiesUp (Nat.pos_of_ne_zero hne) h)

theorem singleParts_lt_infinity_iff {x : Float32} :
    (singleParts x).2 < binary32.infinity ↔ x.isFinite = true := by
  have hfield : @unpackExponent Format.binary32 x.toModel.toBits.toBitVec = -1#_ ↔
      x.toBits.toNat / 2 ^ 23 % 2 ^ 8 = 255 := by
    change _ ↔ x.toModel.toBits.toNat / 2 ^ 23 % 2 ^ 8 = 255
    rw [← BitVec.toNat_inj]
    simp [unpackExponent, Nat.shiftRight_eq_div_pow, Format.binary32]
  have hsign : singleSign = 2 ^ 31 := rfl
  have htop : binary32.infinity = 255 * 2 ^ 23 := rfl
  change _ ↔ (UnpackedFloat.unpack Format.binary32 x.toModel.toBits.toBitVec).isFinite = true
  rw [isFinite_unpack, ne_eq, hfield]
  simp only [singleParts, hsign, htop]
  omega

theorem single?_of_isFinite (layout : DecimalLayout) {x : Float32} (h : x.isFinite = true) :
    ∃ n, layout.single? x = some n ∧ n.toDouble?.isSome = true := by
  have hlt := singleParts_lt_infinity_iff.2 h
  refine ⟨_, ?_, layout.isSome_toDouble?_finite (singleParts x).1 hlt⟩
  simp only [DecimalLayout.single?, if_pos hlt]

theorem single?_of_not_isFinite (layout : DecimalLayout) {x : Float32}
    (h : x.isFinite = false) : layout.single? x = none := by
  have hge : ¬ (singleParts x).2 < binary32.infinity := by
    rw [singleParts_lt_infinity_iff, h]
    decide
  simp only [DecimalLayout.single?, if_neg hge]

end Nodeflow
