import MemberDoc.Text.Basic

set_option autoImplicit false

/-! The shortest decimal text of a binary floating point number: of all decimals that read
back as the number, one with the fewest digits, and of those the nearest. -/

namespace MemberDoc.Json

/-- A finite number `significand * 2 ^ exponent`. -/
structure Binary where
  significand : Nat
  exponent : Int

namespace Binary

def ofFloat (value : Float) : Binary :=
  let bits : Nat := value.toBits.toNat
  let fraction : Nat := bits % Nat.pow 2 52
  let field : Nat := bits / Nat.pow 2 52 % Nat.pow 2 11
  if field = 0 then ⟨fraction, -1074⟩ else ⟨Nat.pow 2 52 + fraction, (field : Int) - 1075⟩

/-- The numerator of a multiple of a quarter of the last binary place. -/
def numerator (number : Binary) (quarters : Nat) : Nat :=
  quarters * Nat.pow 2 (number.exponent - 2).toNat

/-- The common denominator of the multiples of a quarter of the last binary place. -/
def denominator (number : Binary) : Nat :=
  Nat.pow 2 (2 - number.exponent).toNat

/-- Quarters between a number and the middle of the gap below it, which is narrower under a
power of two. -/
def lowerReach (number : Binary) : Nat :=
  if number.significand = Nat.pow 2 52 && number.exponent > -1074 then 1 else 2

end Binary

/-- Digits with the power of ten of the first of them. -/
structure Decimal where
  digits : Text
  exponent : Int

namespace Decimal

/-- How many times a proper fraction is multiplied by ten to become at least one. -/
def leadingZeros : Nat → Nat → Nat → Nat
  | 0, _, _ => 0
  | fuel + 1, numerator, denominator =>
      if denominator ≤ numerator * 10 then 1 else leadingZeros fuel (numerator * 10) denominator + 1

def leadingExponent (numerator denominator : Nat) : Int :=
  let whole := numerator / denominator
  if whole = 0 then -(leadingZeros 400 numerator denominator : Int)
  else ((Nat.toDigits 10 whole).length : Int) - 1

/-- The best decimal of a given precision that reads back as the number, as a count of units of
`10 ^ place`; a tie goes to the even count. -/
def candidate? (number : Binary) (place : Int) : Option Nat :=
  let up := Nat.pow 10 (-place).toNat
  let unit := Nat.pow 10 place.toNat * number.denominator
  let centre := number.numerator (4 * number.significand) * up
  let low := number.numerator (4 * number.significand - number.lowerReach) * up
  let high := number.numerator (4 * number.significand + 2) * up
  let inside := fun count : Nat =>
    if number.significand % 2 = 0 then low ≤ count * unit && count * unit ≤ high
    else low < count * unit && count * unit < high
  let below := centre / unit
  let above := below + 1
  match inside below, inside above with
  | true, true =>
      let down := centre - below * unit
      let upward := above * unit - centre
      some (if down < upward || (down = upward && below % 2 = 0) then below else above)
  | true, false => some below
  | false, true => some above
  | false, false => none

def search (number : Binary) (leading : Int) : Nat → Nat → Nat × Int
  | 0, _ => (0, 0)
  | fuel + 1, precision =>
      let place := leading - precision
      match candidate? number place with
      | some count => (count, place)
      | none => search number leading fuel (precision + 1)

def dropTrailingZeros (digits : Text) : Text :=
  (digits.reverse.dropWhile (· == '0')).reverse

def ofBinary (number : Binary) : Decimal :=
  let leading := leadingExponent (number.numerator (4 * number.significand)) number.denominator
  let (count, place) := search number leading 18 0
  let digits := Nat.toDigits 10 count
  ⟨dropTrailingZeros digits, place + digits.length - 1⟩

/-- Positional notation from `1e-5` up to below `1e16`, always with a decimal point; beyond
that one digit before the point and a signed exponent. -/
def render (number : Decimal) : Text :=
  let digits := number.digits
  let exponent := number.exponent
  if -5 ≤ exponent && exponent ≤ 15 then
    if exponent < 0 then
      ['0', '.'] ++ List.replicate (-exponent - 1).toNat '0' ++ digits
    else
      let whole := exponent.toNat + 1
      if digits.length ≤ whole then
        digits ++ List.replicate (whole - digits.length) '0' ++ ['.', '0']
      else digits.take whole ++ ['.'] ++ digits.drop whole
  else
    let point := if digits.length = 1 then digits else digits.take 1 ++ ['.'] ++ digits.drop 1
    point ++ ['e', if exponent < 0 then '-' else '+'] ++ Text.ofNat exponent.natAbs

end Decimal

def floatText (value : Float) : Text :=
  let sign := if value.toBits.toNat / Nat.pow 2 63 = 1 then ['-'] else []
  let number := Binary.ofFloat value
  if number.significand = 0 then sign ++ ['0', '.', '0']
  else sign ++ (Decimal.ofBinary number).render

end MemberDoc.Json
