import Nodeflow.Number.Numeral

/-!
# Dates and times in TOML

A date, a time of day, or both, the latter with an offset if need be.  What is read is
brought to one form: a capital `T` between date and time, and no zeros at the end of a
fraction.
-/

namespace Nodeflow.Toml

def readDigits (n : Nat) (cs : List Char) : Option (List Char × List Char) :=
  let digits := cs.take n
  if digits.length = n ∧ digits.all Char.isDigit then some (digits, cs.drop n) else none

private def readBelow (limit : Nat) (cs : List Char) : Option (List Char × List Char) := do
  let (digits, rest) ← readDigits 2 cs
  if digitsValue digits < limit then some (digits, rest) else none

private def skip (c : Char) : List Char → Option (List Char)
  | d :: rest => if c = d then some rest else none
  | [] => none

def isLeapYear (year : Nat) : Bool :=
  year % 4 == 0 && (year % 100 != 0 || year % 400 == 0)

def daysInMonth (year month : Nat) : Nat :=
  if month = 2 then (if isLeapYear year then 29 else 28)
  else if month = 4 ∨ month = 6 ∨ month = 9 ∨ month = 11 then 30
  else 31

private def readDay (cs : List Char) : Option (List Char × List Char) := do
  let (year, rest) ← readDigits 4 cs
  let rest ← skip '-' rest
  let (month, rest) ← readDigits 2 rest
  let rest ← skip '-' rest
  let (day, rest) ← readDigits 2 rest
  let m := digitsValue month
  let d := digitsValue day
  if 1 ≤ m ∧ m ≤ 12 ∧ 1 ≤ d ∧ d ≤ daysInMonth (digitsValue year) m then
    some (year ++ '-' :: month ++ '-' :: day, rest)
  else none

private def readSubsecond (cs : List Char) : List Char × List Char :=
  match cs with
  | '.' :: rest =>
    let (digits, after) := spanDigits rest
    let kept := ((digits.take 9).reverse.dropWhile (· == '0')).reverse
    if digits.isEmpty then ([], cs)
    else if kept.isEmpty then ([], after)
    else ('.' :: kept, after)
  | cs => ([], cs)

private def readTime (cs : List Char) : Option (List Char × List Char) := do
  let (hour, rest) ← readBelow 24 cs
  let rest ← skip ':' rest
  let (minute, rest) ← readBelow 60 rest
  let rest ← skip ':' rest
  let (second, rest) ← readBelow 61 rest
  let (fraction, rest) := readSubsecond rest
  some (hour ++ ':' :: minute ++ ':' :: second ++ fraction, rest)

private def readOffset (cs : List Char) : List Char × List Char :=
  match cs with
  | 'Z' :: rest => (['Z'], rest)
  | 'z' :: rest => (['Z'], rest)
  | c :: rest =>
    if c = '+' ∨ c = '-' then
      match hoursMinutes rest with
      | some (text, rest) => (c :: text, rest)
      | none => ([], cs)
    else ([], cs)
  | [] => ([], [])
where
  hoursMinutes (cs : List Char) : Option (List Char × List Char) := do
    let (hour, rest) ← readBelow 24 cs
    let rest ← skip ':' rest
    let (minute, rest) ← readBelow 60 rest
    some (hour ++ ':' :: minute, rest)

private def isTimeMark (c : Char) : Bool :=
  c == 'T' || c == 't' || c == ' '

def readDate (cs : List Char) : Option (List Char × List Char) :=
  match readDay cs with
  | none => readTime cs
  | some (day, rest) =>
    match rest with
    | c :: after =>
      if isTimeMark c then
        match readTime after with
        | some (time, rest) =>
          let (offset, rest) := readOffset rest
          some (day ++ 'T' :: time ++ offset, rest)
        | none => some (day, rest)
      else some (day, rest)
    | [] => some (day, [])

end Nodeflow.Toml
