import MemberDoc.Json.Basic

set_option autoImplicit false

/-! Reading JSON text. Each reader gives what it found and the text behind it, or no text
where the document is malformed. -/

namespace MemberDoc.Json

def skipSpace (text : Text) : Text :=
  text.dropWhile fun c => c == ' ' || c == '\n' || c == '\t' || c == '\r'

def hexDigit? (c : Char) : Option Nat :=
  if c.isDigit then some (c.toNat - 48)
  else if 'a' ≤ c && c ≤ 'f' then some (c.toNat - 87)
  else if 'A' ≤ c && c ≤ 'F' then some (c.toNat - 55)
  else none

def hexUnit? (a b c d : Char) : Option Nat := do
  return (((← hexDigit? a) * 16 + (← hexDigit? b)) * 16 + (← hexDigit? c)) * 16 + (← hexDigit? d)

def shortEscape? (c : Char) : Option Char :=
  if c = '\x22' then some '\x22'
  else if c = '\\' then some '\\'
  else if c = '/' then some '/'
  else if c = 'b' then some '\x08'
  else if c = 'f' then some '\x0c'
  else if c = 'n' then some '\n'
  else if c = 'r' then some '\r'
  else if c = 't' then some '\t'
  else none

/-- A string that was closed: its text, if it has one, and what follows it. -/
abbrev StringEnd := Option Text × Text

def StringEnd.prepend (c : Char) : StringEnd → StringEnd
  | (text, rest) => (text.map (c :: ·), rest)

def StringEnd.spoil : StringEnd → StringEnd
  | (_, rest) => (none, rest)

def isLeadingUnit (unit : Nat) : Bool :=
  0xD800 ≤ unit && unit < 0xDC00

def isTrailingUnit (unit : Nat) : Bool :=
  0xDC00 ≤ unit && unit < 0xE000

/-- Read a string behind its opening quote. A leading surrogate waits for its partner; a string
with a surrogate that finds none has no text. -/
def readString (waiting : Option Nat) : Text → Option StringEnd
  | [] => none
  | '\\' :: 'u' :: a :: b :: c :: d :: rest =>
      match hexUnit? a b c d, waiting with
      | none, _ => none
      | some unit, some leading =>
          if isTrailingUnit unit then
            (readString none rest).map
              (.prepend (Char.ofNat (0x10000 + (leading - 0xD800) * 0x400 + (unit - 0xDC00))))
          else (readString none rest).map .spoil
      | some unit, none =>
          if isLeadingUnit unit then readString (some unit) rest
          else if isTrailingUnit unit then (readString none rest).map .spoil
          else (readString none rest).map (.prepend (Char.ofNat unit))
  | '\\' :: c :: rest =>
      match shortEscape? c with
      | none => none
      | some escaped =>
          (readString none rest).map (if waiting.isSome then .spoil else .prepend escaped)
  | c :: rest =>
      if c = '\x22' then some (if waiting.isSome then none else some [], rest)
      else if c.toNat < 0x20 || c = '\\' then none
      else (readString none rest).map (if waiting.isSome then .spoil else .prepend c)

def digitValue (c : Char) : Nat :=
  c.toNat - 48

/-- A significand of 64 bits takes digits while they fit. Gives the significand, the number of
digits taken and the number of digits left over. -/
def takeDigits (significand : Nat) : Text → Nat × Nat × Nat
  | [] => (significand, 0, 0)
  | c :: rest =>
      let next := significand * 10 + digitValue c
      if next < Nat.pow 2 64 then
        let (total, taken, left) := takeDigits next rest
        (total, taken + 1, left)
      else (significand, 0, rest.length + 1)

/-- Scale a number by a power of ten; none if it leaves the range. Steps of `1e308` suffice, since
a 64-bit significand vanishes after two of them. -/
def scale? : Nat → Float → Int → Option Float
  | 0, _, _ => some 0.0
  | fuel + 1, value, exponent =>
      if exponent.natAbs ≤ 308 then
        let power := Float.ofScientific 1 false exponent.natAbs
        if exponent < 0 then some (value / power)
        else
          let scaled := value * power
          if scaled.isInf then none else some scaled
      else if value == 0.0 then some value
      else if 0 ≤ exponent then none
      else scale? fuel (value / 1e308) (exponent + 308)

structure Exponent where
  negative : Bool
  digits : Text

/-- A number from its parts: integers of 64 bits stay whole, all else is a floating point number,
which is out of range if it would be infinite. -/
def numberOf (negative : Bool) (whole : Text) (fraction : Option Text) (exponent : Option Exponent) :
    Json :=
  let (leading, _, dropped) := takeDigits 0 whole
  let signed := fun value : Float => if negative then -value else value
  let real := fun (significand : Nat) (power : Int) =>
    match scale? 4 significand.toUInt64.toFloat power with
    | some value => Json.number (.real (signed value))
    | none => .unreadable
  match fraction, exponent with
  | none, none =>
      if dropped ≠ 0 then real leading dropped
      else if !negative then .number (.whole leading)
      else if leading = 0 || Nat.pow 2 63 < leading then real leading 0
      else .number (.whole (-(leading : Int)))
  | _, _ =>
      let (significand, taken, _) := takeDigits leading (fraction.getD [])
      let power : Int := (dropped : Int) - taken
      match exponent with
      | none => real significand power
      | some written =>
          let size := written.digits.foldl (fun total c => total * 10 + digitValue c) 0
          if Nat.pow 2 31 ≤ size then
            if significand ≠ 0 && !written.negative then .unreadable
            else .number (.real (signed 0.0))
          else real significand (if written.negative then power - size else power + size)

def readNumber (text : Text) : Option (Json × Text) := do
  let (negative, text) := match text with
    | '-' :: rest => (true, rest)
    | _ => (false, text)
  let whole := text.takeWhile Char.isDigit
  let text := text.dropWhile Char.isDigit
  if whole = [] || (whole.head? = some '0' && whole.length ≠ 1) then none
  let (fraction, text) ← match text with
    | '.' :: rest =>
        let digits := rest.takeWhile Char.isDigit
        if digits = [] then none else some (some digits, rest.dropWhile Char.isDigit)
    | _ => some (none, text)
  let (exponent, text) ← match text with
    | mark :: rest =>
        if mark = 'e' || mark = 'E' then
          let (negative, rest) := match rest with
            | '-' :: tail => (true, tail)
            | '+' :: tail => (false, tail)
            | _ => (false, rest)
          let digits := rest.takeWhile Char.isDigit
          if digits = [] then none
          else some (some (Exponent.mk negative digits), rest.dropWhile Char.isDigit)
        else some (none, text)
    | [] => some (none, text)
  return (numberOf negative whole fraction exponent, text)

mutual

def readValue : Nat → Text → Json × Option Text
  | 0, _ => (.broken, none)
  | fuel + 1, text =>
      match skipSpace text with
      | 'n' :: 'u' :: 'l' :: 'l' :: rest => (.null, some rest)
      | 't' :: 'r' :: 'u' :: 'e' :: rest => (.bool true, some rest)
      | 'f' :: 'a' :: 'l' :: 's' :: 'e' :: rest => (.bool false, some rest)
      | '[' :: rest =>
          let (items, ended, tail) := readItems fuel true rest
          (.array items ended, tail)
      | '\x7b' :: rest =>
          let (members, ended, tail) := readMembers fuel true rest
          (.object members ended, tail)
      | '\x22' :: rest =>
          match readString none rest with
          | some (some value, tail) => (.string value, some tail)
          | some (none, tail) => (.unreadable, some tail)
          | none => (.broken, none)
      | other =>
          match readNumber other with
          | some (value, tail) => (value, some tail)
          | none => (.broken, none)

def readItems : Nat → Bool → Text → List Json × Bool × Option Text
  | 0, _, _ => ([], false, none)
  | fuel + 1, first, text =>
      match first, skipSpace text with
      | true, ']' :: rest => ([], true, some rest)
      | _, start =>
          match readValue fuel start with
          | (value, none) => ([value], false, none)
          | (value, some rest) =>
              match skipSpace rest with
              | ']' :: tail => ([value], true, some tail)
              | ',' :: tail =>
                  let (items, ended, last) := readItems fuel false tail
                  (value :: items, ended, last)
              | _ => ([value], false, none)

def readMembers : Nat → Bool → Text → List (Option Text × Json) × Bool × Option Text
  | 0, _, _ => ([], false, none)
  | fuel + 1, first, text =>
      match first, skipSpace text with
      | true, '\x7d' :: rest => ([], true, some rest)
      | _, '\x22' :: start =>
          match readString none start with
          | none => ([], false, none)
          | some (key, behind) =>
              match skipSpace behind with
              | ':' :: rest =>
                  match readValue fuel rest with
                  | (value, none) => ([(key, value)], false, none)
                  | (value, some rest) =>
                      match skipSpace rest with
                      | '\x7d' :: tail => ([(key, value)], true, some tail)
                      | ',' :: tail =>
                          let (members, ended, last) := readMembers fuel false tail
                          ((key, value) :: members, ended, last)
                      | _ => ([(key, value)], false, none)
              | _ => ([(key, .broken)], false, none)
      | _, _ => ([], false, none)

end

/-- A document: its value, and whether only white space follows it. -/
structure Document where
  value : Json
  alone : Bool

def read (text : Text) : Document :=
  match readValue (2 * text.length + 2) text with
  | (value, some rest) => ⟨value, skipSpace rest == []⟩
  | (value, none) => ⟨value, false⟩

end MemberDoc.Json
