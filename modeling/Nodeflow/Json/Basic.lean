import Nodeflow.Number.Numeral

/-!
# JSON documents

A document as it is written: numbers stay numerals, and the members of an object keep
their order and repetitions.  What a repetition means, and which number a numeral
stands for, is for the reader of a particular kind of document to say.
-/

namespace Nodeflow

inductive Json where
  | null
  | bool (b : Bool)
  | number (n : Numeral)
  | string (s : String)
  | array (items : List Json)
  | object (members : List (String × Json))
  deriving Inhabited

namespace Json

def ofNat (n : Nat) : Json :=
  .number (Numeral.ofNat n)

def ofInt (i : Int) : Json :=
  .number (Numeral.ofInt i)

def ofNumeral? : Option Numeral → Json
  | some n => .number n
  | none => .null

end Json

end Nodeflow
