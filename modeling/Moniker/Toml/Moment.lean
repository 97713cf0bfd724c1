import Moniker.Toml.Number

/-! # Dates and times

A moment is a date, a time of day, or both with an offset or without one. Dates are checked
against the length of their month. -/

namespace Moniker.Toml

open Text (Reader)

/-- A number of exactly so many digits, between two bounds. -/
def boundedNumber (count low high : Nat) : Reader Nat := fun s =>
  let ds := s.take count
  let n := numberOf 10 ds
  if ds.length = count ∧ ds.all Char.isDigit ∧ low ≤ n ∧ n ≤ high then some (n, s.drop count)
  else none

def isLeapYear (year : Nat) : Bool :=
  year % 4 == 0 && (year % 100 != 0 || year % 400 == 0)

def daysOf (year month : Nat) : Nat :=
  match month with
  | 2 => if isLeapYear year then 29 else 28
  | 4 | 6 | 9 | 11 => 30
  | _ => 31

def date : Reader Unit := do
  let year ← boundedNumber 4 0 9999
  Reader.char '-'
  let month ← boundedNumber 2 1 12
  Reader.char '-'
  let _ ← boundedNumber 2 1 (daysOf year month)

/-- A time of day, to the second or finer. A minute may have a leap second. -/
def timeOfDay : Reader Unit := do
  let _ ← boundedNumber 2 0 23
  Reader.char ':'
  let _ ← boundedNumber 2 0 59
  Reader.char ':'
  let _ ← boundedNumber 2 0 60
  let _ ← Reader.attempt do
    Reader.char '.'
    let first ← Reader.satisfy Char.isDigit
    return first :: (← Reader.run Char.isDigit)

/-- The distance from universal time. -/
def offset : Reader Unit :=
  (do let _ ← Reader.satisfy fun c => c == 'Z' || c == 'z') <|> do
    let _ ← Reader.satisfy fun c => c == '+' || c == '-'
    let _ ← boundedNumber 2 0 23
    Reader.char ':'
    let _ ← boundedNumber 2 0 59

/-- What may follow a date: a time, and then perhaps an offset. -/
def timeAfterDate : Reader Unit := do
  let _ ← Reader.satisfy fun c => c == 'T' || c == 't' || c == ' '
  timeOfDay
  let _ ← Reader.attempt offset

/-- A date with or without a time, or a time alone. -/
def moment : Reader Data := do
  (do date; let _ ← Reader.attempt timeAfterDate) <|> timeOfDay
  return .moment

end Moniker.Toml
