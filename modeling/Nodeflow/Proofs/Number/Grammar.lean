import Mathlib
import Nodeflow.Number.Decimal

/-!
# Well-written numerals

A strict reader of numbers admits no leading zero, no point without digits after it and
no exponent without digits.  A numeral that keeps these rules is grammatical, and every
numeral the library writes is: integers by the digits of a natural number, floats by the
layout of positive shortest digits.  A layout that keeps the point never writes a float
as a whole numeral, so no reader takes it for an integer.
-/

namespace Nodeflow

/-! ## Digits -/

def IsDigits (cs : List Char) : Prop :=
  ∀ c ∈ cs, c.isDigit = true

theorem IsDigits.append {xs ys : List Char} (hx : IsDigits xs) (hy : IsDigits ys) :
    IsDigits (xs ++ ys) := by
  intro c hc
  rcases List.mem_append.1 hc with hc | hc
  · exact hx c hc
  · exact hy c hc

theorem IsDigits.take {cs : List Char} (h : IsDigits cs) (n : Nat) : IsDigits (cs.take n) :=
  fun c hc => h c (List.mem_of_mem_take hc)

theorem IsDigits.drop {cs : List Char} (h : IsDigits cs) (n : Nat) : IsDigits (cs.drop n) :=
  fun c hc => h c (List.mem_of_mem_drop hc)

theorem isDigits_zeros (n : Nat) : IsDigits (DecimalLayout.zeros n) := by
  intro c hc
  rw [List.eq_of_mem_replicate hc]
  rfl

theorem isDigits_toDigits (n : Nat) : IsDigits (Nat.toDigits 10 n) :=
  fun _ => Nat.isDigit_of_mem_toDigits (by decide) (by decide)

theorem digitsValue_eq_ofDigitChars (digits : List Char) :
    digitsValue digits = Nat.ofDigitChars 10 digits 0 := by
  simp only [digitsValue, digitValue, Nat.ofDigitChars_eq_foldl]

@[simp] theorem digitsValue_toDigits (n : Nat) : digitsValue (Nat.toDigits 10 n) = n := by
  rw [digitsValue_eq_ofDigitChars, Nat.ofDigitChars_ten_toDigits]

theorem head?_toDigits_ne_zero {n : Nat} (h : 0 < n) :
    (Nat.toDigits 10 n).head? ≠ some '0' := by
  induction n using Nat.strongRecOn with
  | ind n ih =>
      rw [Nat.toDigits_eq_if (by decide)]
      split
      · rename_i hlt
        have hchar : ∀ d < 10, 0 < d → Nat.digitChar d ≠ '0' := by decide
        simpa using hchar n hlt h
      · rename_i hge
        rw [List.head?_append_of_ne_nil _ Nat.toDigits_ne_nil]
        exact ih (n / 10) (by omega) (by omega)

def EndsDigits (rest : List Char) : Prop :=
  ∀ c ∈ rest.head?, c.isDigit = false

theorem spanDigits_append {digits rest : List Char} (hd : IsDigits digits)
    (hr : EndsDigits rest) : spanDigits (digits ++ rest) = (digits, rest) := by
  have hstop : rest.takeWhile Char.isDigit = [] ∧ rest.dropWhile Char.isDigit = rest := by
    cases rest with
    | nil => exact ⟨rfl, rfl⟩
    | cons c cs =>
        have hc : c.isDigit = false := hr c rfl
        exact ⟨List.takeWhile_cons_of_neg (by simp [hc]), List.dropWhile_cons_of_neg (by simp [hc])⟩
  rw [spanDigits, List.span_eq_takeWhile_dropWhile, List.takeWhile_append_of_pos hd,
    List.dropWhile_append_of_pos hd, hstop.1, hstop.2, List.append_nil]

/-! ## Grammar -/

namespace Numeral

def IsWholePart (ds : List Char) : Prop :=
  ds = ['0'] ∨ ds ≠ [] ∧ ds.head? ≠ some '0' ∧ IsDigits ds

def IsExponentPart (e : List Char) : Prop :=
  e = [] ∨ ∃ sign ds, sign ∈ [[], ['+'], ['-']] ∧ ds ≠ [] ∧ IsDigits ds ∧ e = sign ++ ds

structure Grammatical (n : Numeral) : Prop where
  whole : IsWholePart n.whole
  fraction : IsDigits n.fraction
  exponent : IsExponentPart n.exponent

theorem isWholePart_toDigits (n : Nat) : IsWholePart (Nat.toDigits 10 n) := by
  rcases Nat.eq_zero_or_pos n with rfl | hpos
  · exact .inl rfl
  · exact .inr ⟨Nat.toDigits_ne_nil, head?_toDigits_ne_zero hpos, isDigits_toDigits n⟩

theorem IsWholePart.ne_nil {ds : List Char} (h : IsWholePart ds) : ds ≠ [] := by
  rcases h with rfl | ⟨hne, -⟩
  · exact nofun
  · exact hne

theorem IsWholePart.isDigits {ds : List Char} (h : IsWholePart ds) : IsDigits ds := by
  rcases h with rfl | ⟨-, -, hds⟩
  · exact isDigits_zeros 1
  · exact hds

theorem ofNat_grammatical (n : Nat) : (ofNat n).Grammatical :=
  ⟨isWholePart_toDigits n, nofun, .inl rfl⟩

theorem ofInt_grammatical (i : Int) : (ofInt i).Grammatical :=
  ⟨isWholePart_toDigits _, nofun, .inl rfl⟩

end Numeral

/-! ## Layouts -/

namespace DecimalLayout

theorem isDigits_wholeFraction (layout : DecimalLayout) : IsDigits layout.wholeFraction := by
  rw [wholeFraction]
  split
  · exact isDigits_zeros 1
  · exact nofun

theorem isWholePart_prefix {digits n : Nat} (hpos : 0 < digits) {rest : List Char}
    (hrest : IsDigits rest) :
    Numeral.IsWholePart ((Nat.toDigits 10 digits).take (n + 1) ++ rest) := by
  have hhead := head?_toDigits_ne_zero hpos
  have hdigits := isDigits_toDigits digits
  cases hds : Nat.toDigits 10 digits with
  | nil => exact absurd hds Nat.toDigits_ne_nil
  | cons d ds =>
      rw [hds] at hhead hdigits
      exact .inr ⟨nofun, hhead, (hdigits.take (n + 1)).append hrest⟩

theorem positive_cases (layout : DecimalLayout) (negative : Bool) (digits : Nat) (k : Int)
    {ds : List Char} (hds : Nat.toDigits 10 digits = ds) {first : Int}
    (hfirst : k + ds.length - 1 = first) :
    (first < 0 ∧ layout.positive negative digits k =
      ⟨negative, ['0'], zeros (-first - 1).toNat ++ ds, []⟩) ∨
    (0 ≤ first ∧ ds.length ≤ first.toNat + 1 ∧
      layout.positive negative digits k =
        ⟨negative, ds ++ zeros (first.toNat + 1 - ds.length), layout.wholeFraction, []⟩) ∨
    (0 ≤ first ∧ first.toNat + 1 < ds.length ∧
      layout.positive negative digits k =
        ⟨negative, ds.take (first.toNat + 1), ds.drop (first.toNat + 1), []⟩) ∨
    (∃ sign ∈ [[], ['+'], ['-']], (first < 0 → sign = ['-']) ∧
      layout.positive negative digits k =
        ⟨negative, ds.take 1, ds.drop 1, sign ++ Nat.toDigits 10 first.natAbs⟩) := by
  subst hds
  obtain ⟨plain, heq⟩ : ∃ plain : Bool, layout.positive negative digits k =
        if plain then
          if first < 0 then
            ⟨negative, ['0'], zeros (-first - 1).toNat ++ Nat.toDigits 10 digits, []⟩
          else if (Nat.toDigits 10 digits).length ≤ first.toNat + 1 then
            ⟨negative, Nat.toDigits 10 digits ++
                zeros (first.toNat + 1 - (Nat.toDigits 10 digits).length),
              layout.wholeFraction, []⟩
          else
            ⟨negative, (Nat.toDigits 10 digits).take (first.toNat + 1),
              (Nat.toDigits 10 digits).drop (first.toNat + 1), []⟩
        else
          ⟨negative, (Nat.toDigits 10 digits).take 1, (Nat.toDigits 10 digits).drop 1,
            (if first < 0 then ['-'] else if layout.exponentPlus then ['+'] else []) ++
              Nat.toDigits 10 first.natAbs⟩ :=
    ⟨_, by simp only [positive, hfirst]; rfl⟩
  rw [heq]
  cases plain with
  | false =>
      refine .inr (.inr (.inr ⟨_, ?_, fun hneg => if_pos hneg, rfl⟩))
      split
      · simp
      · split <;> simp
  | true =>
      by_cases hneg : first < 0
      · exact .inl ⟨hneg, by simp [hneg]⟩
      · by_cases hlen : (Nat.toDigits 10 digits).length ≤ first.toNat + 1
        · exact .inr (.inl ⟨by omega, hlen, by simp [hneg, hlen]⟩)
        · exact .inr (.inr (.inl ⟨by omega, by omega, by simp [hneg, hlen]⟩))

theorem positive_grammatical (layout : DecimalLayout) (negative : Bool) {digits : Nat} (k : Int)
    (hpos : 0 < digits) : (layout.positive negative digits k).Grammatical := by
  have hds := isDigits_toDigits digits
  have hcut : ∀ n, Numeral.IsWholePart ((Nat.toDigits 10 digits).take (n + 1)) := by
    intro n
    have := isWholePart_prefix (n := n) hpos (show IsDigits [] from nofun)
    rwa [List.append_nil] at this
  rcases layout.positive_cases negative digits k rfl rfl with
    ⟨-, heq⟩ | ⟨-, hlen, heq⟩ | ⟨-, -, heq⟩ | ⟨sign, hsign, -, heq⟩
  all_goals rw [heq]
  · exact ⟨.inl rfl, (isDigits_zeros _).append hds, .inl rfl⟩
  · have hwhole := isWholePart_prefix (n := (Nat.toDigits 10 digits).length) hpos
      (isDigits_zeros ((k + (Nat.toDigits 10 digits).length - 1).toNat + 1
        - (Nat.toDigits 10 digits).length))
    rw [List.take_of_length_le (Nat.le_succ _)] at hwhole
    exact ⟨hwhole, isDigits_wholeFraction layout, .inl rfl⟩
  · exact ⟨hcut _, hds.drop _, .inl rfl⟩
  · exact ⟨hcut 0, hds.drop _,
      .inr ⟨sign, _, hsign, Nat.toDigits_ne_nil, isDigits_toDigits _, rfl⟩⟩

theorem isWhole_positive {layout : DecimalLayout} (hpoint : layout.keepsPoint = true)
    (negative : Bool) (digits : Nat) (k : Int) :
    (layout.positive negative digits k).isWhole = false := by
  rcases layout.positive_cases negative digits k rfl rfl with
    ⟨-, heq⟩ | ⟨-, -, heq⟩ | ⟨-, hlen, heq⟩ | ⟨sign, -, -, heq⟩
  all_goals rw [heq, Numeral.isWhole]
  · simp [Nat.toDigits_ne_nil]
  · simp [wholeFraction, hpoint]
  · simpa using hlen
  · simp [Nat.toDigits_ne_nil]

end DecimalLayout

end Nodeflow
