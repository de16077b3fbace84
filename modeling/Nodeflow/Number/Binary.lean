/-!
# Binary floating-point formats

The two interchange formats of the library, and correct rounding into them.  A
magnitude is the bit pattern of a number without its sign bit; magnitudes of a format
are ordered like the numbers they stand for, so rounding a positive ratio is one
quotient followed by one addition, and a carry out of the significand needs no case
of its own.
-/

namespace Nodeflow

/-- A format: the stored bits of a significand, the power of two of the least positive
number, and the exponent field that marks infinities. -/
structure BinaryFormat where
  fractionBits : Nat
  leastExponent : Int
  topField : Nat
  deriving DecidableEq, Repr

def binary64 : BinaryFormat := ⟨52, -1074, 2047⟩

def binary32 : BinaryFormat := ⟨23, -149, 255⟩

namespace BinaryFormat

def leadingBit (f : BinaryFormat) : Nat :=
  Nat.pow 2 f.fractionBits

def infinity (f : BinaryFormat) : Nat :=
  f.topField * f.leadingBit

def split (f : BinaryFormat) (magnitude : Nat) : Nat × Int :=
  let field := magnitude / f.leadingBit
  if field = 0 then (magnitude, f.leastExponent)
  else (magnitude % f.leadingBit + f.leadingBit, f.leastExponent + (field - 1 : Nat))

end BinaryFormat

/-- The whole number nearest to `num / den`, the even one of two equally near. -/
def roundHalfEven (num den : Nat) : Nat :=
  let quotient := num / den
  match compare (2 * (num % den)) den with
  | .lt => quotient
  | .eq => quotient + quotient % 2
  | .gt => quotient + 1

def scaleRatio (num den : Nat) : Int → Nat × Nat
  | .ofNat k => (num, den * Nat.pow 2 k)
  | .negSucc k => (num * Nat.pow 2 (k + 1), den)

namespace BinaryFormat

/-- Power of two of the last significand bit for the positive ratio `num / den`. -/
def unitExponent (f : BinaryFormat) (num den : Nat) : Int :=
  let guess : Int := (num.log2 : Int) - den.log2 - f.fractionBits
  let scaled := scaleRatio num den guess
  let exponent := if scaled.1 < scaled.2 * f.leadingBit then guess - 1 else guess
  max exponent f.leastExponent

/-- The magnitude nearest to `num / den`; ties go to the even significand, and what
rounds beyond the greatest finite number is infinite. -/
def nearest (f : BinaryFormat) (num den : Nat) : Nat :=
  if num = 0 then 0
  else
    let exponent := f.unitExponent num den
    let scaled := scaleRatio num den exponent
    let raised := (exponent - f.leastExponent).toNat * f.leadingBit
    min (raised + roundHalfEven scaled.1 scaled.2) f.infinity

/-- The magnitude nearest to `digits * 10 ^ exponent`.  Exponents far outside the
format's range are answered without computing the power. -/
def ofDecimal (f : BinaryFormat) (digits : Nat) (exponent : Int) : Nat :=
  if digits = 0 then 0
  else
    let size : Int := (digits.log2 : Int) / 3
    if size + exponent > 400 then f.infinity
    else if size + size / 4 + 2 + exponent < -400 then 0
    else
      match exponent with
      | .ofNat k => f.nearest (digits * Nat.pow 10 k) 1
      | .negSucc k => f.nearest digits (Nat.pow 10 (k + 1))

end BinaryFormat

/-! ## Doubles and singles -/

def doubleSign : Nat := 0x8000000000000000

def singleSign : Nat := 0x80000000

def doubleOf (negative : Bool) (magnitude : Nat) : Float :=
  Float.ofBits (UInt64.ofNat (magnitude + if negative then doubleSign else 0))

def singleOf (negative : Bool) (magnitude : Nat) : Float32 :=
  Float32.ofBits (UInt32.ofNat (magnitude + if negative then singleSign else 0))

def doubleParts (x : Float) : Bool × Nat :=
  let bits := x.toBits.toNat
  (doubleSign ≤ bits, bits % doubleSign)

def singleParts (x : Float32) : Bool × Nat :=
  let bits := x.toBits.toNat
  (singleSign ≤ bits, bits % singleSign)

def doubleNaN : Float := Float.ofBits 0x7ff8000000000000

def singleNaN : Float32 := Float32.ofBits 0x7fc00000

def doubleOfInt (i : Int) : Float :=
  doubleOf (i < 0) (binary64.nearest i.natAbs 1)

def singleOfInt (i : Int) : Float32 :=
  singleOf (i < 0) (binary32.nearest i.natAbs 1)

private def requantize (target : BinaryFormat) (parts : Nat × Int) : Nat :=
  let ratio := scaleRatio parts.1 1 (-parts.2)
  target.nearest ratio.1 ratio.2

def singleOfDouble (x : Float) : Float32 :=
  let (negative, magnitude) := doubleParts x
  if x.isNaN then singleNaN
  else if magnitude = binary64.infinity then singleOf negative binary32.infinity
  else singleOf negative (requantize binary32 (binary64.split magnitude))

def doubleOfSingle (x : Float32) : Float :=
  let (negative, magnitude) := singleParts x
  if x.isNaN then doubleNaN
  else if magnitude = binary32.infinity then doubleOf negative binary64.infinity
  else doubleOf negative (requantize binary64 (binary32.split magnitude))

/-- The remainder of a division truncated toward zero: exact, with the sign of the
dividend. -/
def doubleRemainder (x y : Float) : Float :=
  let (negative, mx) := doubleParts x
  let (_, my) := doubleParts y
  if x.isNaN || y.isNaN || mx = binary64.infinity || my = 0 then doubleNaN
  else if my = binary64.infinity then x
  else
    let (sx, ex) := binary64.split mx
    let (sy, ey) := binary64.split my
    let exponent := min ex ey
    let dividend := sx * Nat.pow 2 (ex - exponent).toNat
    let divisor := sy * Nat.pow 2 (ey - exponent).toNat
    doubleOf negative (requantize binary64 (dividend % divisor, exponent))

end Nodeflow
