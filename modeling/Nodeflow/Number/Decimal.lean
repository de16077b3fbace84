import Nodeflow.Number.Binary
import Nodeflow.Number.Numeral

/-!
# Shortest decimal text

The text of a floating-point number has the fewest digits that read back as that
number.  The search walks the decimal grids from coarse to fine and stops at the first
grid with a point in the interval of reals that round to the number; on the finest
grid it can reach, the number itself is a point.  How the digits are laid out is a
matter of the output at hand and sits in a `DecimalLayout`.
-/

namespace Nodeflow

/-! ## The fewest digits -/

def gridRatio (n : Nat) (e k : Int) : Nat × Nat :=
  let binary := scaleRatio n 1 (-e)
  match k with
  | .ofNat d => (binary.1, binary.2 * Nat.pow 10 d)
  | .negSucc d => (binary.1 * Nat.pow 10 (d + 1), binary.2)

/-- The reals that round to a finite positive number, counted in quarters of its last
significand place, and whether the ends belong to them. -/
structure RoundingInterval where
  low : Nat
  centre : Nat
  high : Nat
  exponent : Int
  closed : Bool
  deriving DecidableEq, Repr

/-- Below a power of two the neighbour is only half as far away. -/
def BinaryFormat.interval (f : BinaryFormat) (magnitude : Nat) : RoundingInterval :=
  let (significand, exponent) := f.split magnitude
  let below :=
    if significand = f.leadingBit ∧ f.leastExponent < exponent then 1 else 2
  { low := 4 * significand - below
    centre := 4 * significand
    high := 4 * significand + 2
    exponent := exponent - 2
    closed := significand % 2 == 0 }

namespace RoundingInterval

def holds (i : RoundingInterval) (digits : Nat) (k : Int) : Bool :=
  let (lowNum, den) := gridRatio i.low i.exponent k
  let (highNum, _) := gridRatio i.high i.exponent k
  if i.closed then lowNum ≤ digits * den && digits * den ≤ highNum
  else lowNum < digits * den && digits * den < highNum

def gridPoint? (i : RoundingInterval) (tiesUp : Bool) (k : Int) : Option Nat :=
  let (num, den) := gridRatio i.centre i.exponent k
  let below := num / den
  let above := if num % den = 0 then below else below + 1
  match i.holds below k, i.holds above k with
  | false, false => none
  | true, false => some below
  | false, true => some above
  | true, true =>
    match compare (2 * (num % den)) den with
    | .lt => some below
    | .gt => some above
    | .eq => if tiesUp || below % 2 == 1 then some above else some below

/-- Digits and power of ten on the coarsest grid, from `10 ^ k` down, with a point in
the interval. -/
def shortestFrom (i : RoundingInterval) (tiesUp : Bool) (k : Int) : Nat → Nat × Int
  | 0 =>
    let (num, den) := gridRatio i.centre i.exponent k
    (num / den, k)
  | steps + 1 =>
    match i.gridPoint? tiesUp k with
    | some digits => (digits, k)
    | none => i.shortestFrom tiesUp (k - 1) steps

end RoundingInterval

def BinaryFormat.shortest (f : BinaryFormat) (tiesUp : Bool) (magnitude : Nat) : Nat × Int :=
  let i := f.interval magnitude
  let top : Int := ((i.high.log2 : Int) + 1 + i.exponent) * 30103 / 100000 + 1
  let bottom : Int := min i.exponent 0
  i.shortestFrom tiesUp top (top - bottom).toNat

/-! ## Layout -/

/-- How the digits of a number are set: which decimal exponents of the first digit
(from the first bound, below the second) are written positionally, whether a whole
number keeps its point, whether a positive exponent carries its sign, and where a tie
between two shortest texts goes. -/
structure DecimalLayout where
  positional : Option (Int × Int)
  keepsPoint : Bool
  exponentPlus : Bool
  tiesUp : Bool
  deriving DecidableEq, Repr

def displayLayout : DecimalLayout := ⟨none, false, false, true⟩

/-- Structural dumps keep the point and use an exponent outside `1e-4` to `1e16`. -/
def dumpLayout : DecimalLayout := ⟨some (-4, 16), true, false, true⟩

def savedDoubleLayout : DecimalLayout := ⟨some (-5, 16), true, true, false⟩

def savedSingleLayout : DecimalLayout := ⟨some (-6, 13), true, true, false⟩

namespace DecimalLayout

def zeros (n : Nat) : List Char :=
  List.replicate n '0'

def wholeFraction (layout : DecimalLayout) : List Char :=
  if layout.keepsPoint then ['0'] else []

def positive (layout : DecimalLayout) (negative : Bool) (digits : Nat) (k : Int) : Numeral :=
  let ds := Nat.toDigits 10 digits
  let first : Int := k + ds.length - 1
  let plain := match layout.positional with
    | none => true
    | some (least, limit) => least ≤ first && first < limit
  if plain then
    if first < 0 then ⟨negative, ['0'], zeros (-first - 1).toNat ++ ds, []⟩
    else
      let count := first.toNat + 1
      if ds.length ≤ count then
        ⟨negative, ds ++ zeros (count - ds.length), layout.wholeFraction, []⟩
      else ⟨negative, ds.take count, ds.drop count, []⟩
  else
    let sign := if first < 0 then ['-'] else if layout.exponentPlus then ['+'] else []
    ⟨negative, ds.take 1, ds.drop 1, sign ++ Nat.toDigits 10 first.natAbs⟩

def finite (layout : DecimalLayout) (f : BinaryFormat) (negative : Bool) (magnitude : Nat) :
    Numeral :=
  if magnitude = 0 then ⟨negative, ['0'], layout.wholeFraction, []⟩
  else
    let (digits, k) := f.shortest layout.tiesUp magnitude
    layout.positive negative digits k

def double? (layout : DecimalLayout) (x : Float) : Option Numeral :=
  let (negative, magnitude) := doubleParts x
  if magnitude < binary64.infinity then some (layout.finite binary64 negative magnitude) else none

def single? (layout : DecimalLayout) (x : Float32) : Option Numeral :=
  let (negative, magnitude) := singleParts x
  if magnitude < binary32.infinity then some (layout.finite binary32 negative magnitude) else none

def text (layout : DecimalLayout) (x : Float) : String :=
  match layout.double? x with
  | some n => n.text
  | none => if x.isNaN then "NaN" else if (doubleParts x).1 then "-inf" else "inf"

end DecimalLayout

end Nodeflow
