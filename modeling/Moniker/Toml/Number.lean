import Moniker.Data
import Moniker.Text.Reader

/-! # Numbers

Integers are signed 64-bit words, written in decimal with a sign or in base 16, 8 or 2 without
one. Reals have a fraction or an exponent; one that rounds to positive infinity is refused.
Between two digits there may be an underscore. -/

namespace Moniker.Toml

open Text (Reader)

/-- Digits of a class with single underscores between them, which are dropped. -/
def digits (p : Char → Bool) : Reader (List Char) := do
  let first ← Reader.satisfy p
  let others ← Reader.many do
    let _ ← Reader.attempt (Reader.char '_')
    Reader.satisfy p
  return first :: others

/-- A sign, if there is one; whether it is a minus. -/
def sign : Reader Bool := do
  match ← Reader.attempt (Reader.satisfy fun c => c == '+' || c == '-') with
  | some c => return c == '-'
  | none => return false

/-- Decimal digits without a leading zero. -/
def wholeDigits : Reader (List Char) := do
  match ← Reader.peek with
  | some '0' => return [← Reader.satisfy Char.isDigit]
  | _ => digits Char.isDigit

/-- The number that digits write in a base up to sixteen. -/
def numberOf (base : Nat) (ds : List Char) : Nat :=
  ds.foldl (fun n c => n * base + digit c) 0
where
  digit (c : Char) : Nat :=
    if c.isDigit then c.toNat - '0'.toNat
    else if 'a' ≤ c then c.toNat - 'a'.toNat + 10
    else c.toNat - 'A'.toNat + 10

/-- An integer that fits a signed 64-bit word. -/
def fitted (i : Int) : Reader Data :=
  if Int64.minValue.toInt ≤ i ∧ i ≤ Int64.maxValue.toInt then return .int i else failure

/-- Digits of another base after its mark. -/
def basedInteger (mark : Char) (base : Nat) (p : Char → Bool) : Reader Data := do
  Reader.exactly ['0', mark]
  fitted (numberOf base (← digits p))

def decimalInteger : Reader Data := do
  let minus ← sign
  let n := numberOf 10 (← wholeDigits)
  fitted (if minus then -n else n)

def isHexDigit (c : Char) : Bool :=
  c.isDigit || ('a' ≤ c && c ≤ 'f') || ('A' ≤ c && c ≤ 'F')

def integer : Reader Data :=
  basedInteger 'x' 16 isHexDigit
    <|> basedInteger 'o' 8 (fun c => '0' ≤ c && c ≤ '7')
    <|> basedInteger 'b' 2 (fun c => c == '0' || c == '1')
    <|> decimalInteger

/-- Whether `n · 10 ^ exponent` stays below every number that rounds to infinity as a double,
of which 2^1024 - 2^970 is the least. -/
def roundsFinite (n : Nat) (exponent : Int) : Bool :=
  let places : Int := (Nat.toDigits 10 n).length
  if n = 0 || places + exponent ≤ 308 then true
  else if 310 ≤ places + exponent then false
  else
    let bound := Nat.pow 2 1024 - Nat.pow 2 970
    if 0 ≤ exponent then n * Nat.pow 10 exponent.toNat < bound
    else n < bound * Nat.pow 10 (-exponent).toNat

def fraction : Reader (List Char) := do
  Reader.char '.'
  digits Char.isDigit

def exponent : Reader Int := do
  let _ ← Reader.satisfy fun c => c == 'e' || c == 'E'
  let minus ← sign
  let n := numberOf 10 (← digits Char.isDigit)
  return if minus then -n else n

/-- A real with a fraction, an exponent or both. -/
def decimalReal : Reader Data := do
  let minus ← sign
  let whole ← wholeDigits
  let part ← Reader.attempt fraction
  let scale ← Reader.attempt exponent
  if part.isNone && scale.isNone then failure
  let places := part.getD []
  if !minus && !roundsFinite (numberOf 10 (whole ++ places)) (scale.getD 0 - places.length) then
    failure
  return .real

/-- Infinity, or what is no number. -/
def specialReal : Reader Data := do
  let _ ← sign
  Reader.exactly "inf".toList <|> Reader.exactly "nan".toList
  return .real

def real : Reader Data :=
  decimalReal <|> specialReal

end Moniker.Toml
