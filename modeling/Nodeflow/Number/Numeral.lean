/-!
# Written numbers

A decimal number as it is written: sign, digits before and after the point, and the
exponent with its own sign.  Nothing is said here about the number it stands for;
different readers of numerals round differently.
-/

namespace Nodeflow

structure Numeral where
  negative : Bool
  whole : List Char
  fraction : List Char
  exponent : List Char
  deriving DecidableEq, Repr

namespace Numeral

def toChars (n : Numeral) : List Char :=
  (if n.negative then ['-'] else []) ++ n.whole ++
    (if n.fraction.isEmpty then [] else '.' :: n.fraction) ++
    (if n.exponent.isEmpty then [] else 'e' :: n.exponent)

def text (n : Numeral) : String :=
  String.ofList n.toChars

def isWhole (n : Numeral) : Bool :=
  n.fraction.isEmpty && n.exponent.isEmpty

def ofNat (n : Nat) : Numeral :=
  ⟨false, Nat.toDigits 10 n, [], []⟩

def ofInt (i : Int) : Numeral :=
  ⟨i < 0, Nat.toDigits 10 i.natAbs, [], []⟩

end Numeral

def digitValue (c : Char) : Nat :=
  c.toNat - '0'.toNat

def digitsValue (digits : List Char) : Nat :=
  digits.foldl (fun n c => 10 * n + digitValue c) 0

def spanDigits (cs : List Char) : List Char × List Char :=
  cs.span Char.isDigit

end Nodeflow
