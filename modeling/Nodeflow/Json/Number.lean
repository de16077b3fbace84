import Nodeflow.Number.Binary
import Nodeflow.Number.Numeral
import Nodeflow.Number.Word

/-!
# Numbers in JSON documents

A whole numeral in the range of 64-bit integers, signed or unsigned, is an integer;
the sign of a negative zero makes it a float.  Every other numeral is a float, read in
two roundings: the leading digits that fit in 64 bits are rounded to a double, which
is then multiplied or divided by the double nearest to a power of ten.  For numerals
of up to fifteen digits and small exponents both steps are exact or correctly rounded.
-/

namespace Nodeflow.Numeral

def integer? (n : Numeral) : Option Int :=
  if n.isWhole then
    let magnitude := digitsValue n.whole
    if n.negative then
      if magnitude = 0 then none else (word? (-magnitude)).map Int64.toInt
    else if magnitude < UInt64.size then some magnitude else none
  else none

structure Kept where
  significand : Nat
  exponent : Int
  deriving DecidableEq, Repr

/-- Takes digits before the point; once one no longer fits, it and all later ones only
raise the exponent. -/
def keepWhole (kept : Kept) : List Char → Kept
  | [] => kept
  | c :: rest =>
    let next := 10 * kept.significand + digitValue c
    if next < UInt64.size then keepWhole { kept with significand := next } rest
    else { kept with exponent := kept.exponent + (rest.length + 1) }

def keepFraction (kept : Kept) : List Char → Kept
  | [] => kept
  | c :: rest =>
    let next := 10 * kept.significand + digitValue c
    if next < UInt64.size then keepFraction ⟨next, kept.exponent - 1⟩ rest else kept

def exponentValue (n : Numeral) : Int :=
  match n.exponent with
  | '-' :: digits => -(digitsValue digits : Int)
  | '+' :: digits => digitsValue digits
  | digits => digitsValue digits

def powerOfTen (k : Nat) : Float :=
  doubleOf false (binary64.ofDecimal 1 k)

def scaleDouble? (x : Float) : Int → Option Float
  | .ofNat k =>
    if k ≤ 308 then
      let y := x * powerOfTen k
      if y.isFinite then some y else none
    else if x == 0 then some 0 else none
  | .negSucc k =>
    if k + 1 ≤ 308 then some (x / powerOfTen (k + 1))
    else if k + 1 ≤ 616 then some (x / powerOfTen 308 / powerOfTen (k + 1 - 308))
    else some 0

/-- The double a numeral stands for, unless it is beyond the greatest finite one. -/
def toDouble? (n : Numeral) : Option Float := do
  let kept := keepFraction (keepWhole ⟨0, 0⟩ n.whole) n.fraction
  let x ← scaleDouble? (doubleOfInt kept.significand) (kept.exponent + n.exponentValue)
  some (if n.negative then -x else x)

end Nodeflow.Numeral
