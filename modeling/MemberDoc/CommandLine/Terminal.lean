import MemberDoc.Text.Basic

set_option autoImplicit false

/-! Texts for a terminal: styles, which are control sequences in the text, and the same text
without any control sequence. -/

namespace MemberDoc.CommandLine

def escapeCode (code : Text) : Text :=
  '\x1b' :: '[' :: code ++ ['m']

/-- What a part of a message is, as far as it shows. -/
inductive Style where
  | error
  | heading
  | literal
  | valid
  | invalid
  deriving DecidableEq

def Style.start : Style → Text
  | .error => escapeCode ['1'] ++ escapeCode ['3', '1']
  | .heading => escapeCode ['1'] ++ escapeCode ['4']
  | .literal => escapeCode ['1']
  | .valid => escapeCode ['3', '2']
  | .invalid => escapeCode ['3', '3']

def Style.apply (style : Style) (text : Text) : Text :=
  style.start ++ text ++ escapeCode ['0']

namespace Terminal

/-- How far a control sequence has been read. -/
inductive Sequence where
  /-- Outside of all sequences. -/
  | ground
  | escape
  /-- Behind an escape character and an intermediate one. -/
  | escapeTail
  /-- Behind `ESC [`, up to a letter. -/
  | control
  /-- Behind `ESC P`, up to the string of a device. -/
  | device
  | deviceParameters
  | deviceTail
  /-- A string that only a string terminator ends. -/
  | string
  /-- Behind `ESC ]`, up to a bell. -/
  | command
  deriving DecidableEq

/-- The state after an ASCII character. Two characters cancel every sequence, and an escape
character starts a new one. -/
def Sequence.next (sequence : Sequence) (code : Nat) : Sequence :=
  if code = 0x18 || code = 0x1A then .ground
  else if code = 0x1B then .escape
  else
    let silent := code < 0x20 || code = 0x7F
    match sequence with
    | .ground => .ground
    | .escape =>
        if silent then .escape
        else if code < 0x30 then .escapeTail
        else if code = 0x5B then .control
        else if code = 0x5D then .command
        else if code = 0x50 then .device
        else if code = 0x58 || code = 0x5E || code = 0x5F then .string
        else .ground
    | .escapeTail => if silent || code < 0x30 then .escapeTail else .ground
    | .control => if silent || code < 0x40 then .control else .ground
    | .device =>
        if silent then .device
        else if code < 0x30 then .deviceTail
        else if code < 0x40 then .deviceParameters
        else .string
    | .deviceParameters =>
        if silent then .deviceParameters
        else if code < 0x30 then .deviceTail
        else if code < 0x3C then .deviceParameters
        else .string
    | .deviceTail => if silent || code < 0x30 then .deviceTail else .string
    | .string => .string
    | .command => if code = 0x07 then .ground else .command

/-- Tabs, line ends and form feeds, which take effect also inside of most sequences. -/
def isLayout (code : Nat) : Bool :=
  code = 0x09 || code = 0x0A || code = 0x0C || code = 0x0D

def Sequence.shows (sequence : Sequence) (code : Nat) : Bool :=
  match sequence with
  | .ground => (0x20 ≤ code && code < 0x7F) || isLayout code
  | .escape => isLayout code
  | .escapeTail => isLayout code
  | .control => isLayout code
  | _ => false

/-- Whether one of the bytes of a character is the string terminator `9C`. -/
def endsString (code : Nat) : Bool :=
  code % 64 = 0x1C || (0x800 ≤ code && code / 64 % 64 = 0x1C) ||
    (0x10000 ≤ code && code / 4096 % 64 = 0x1C)

def Sequence.read (sequence : Sequence) (c : Char) : Sequence × Bool :=
  let code := c.toNat
  if code < 0x80 then (sequence.next code, sequence.shows code)
  else match sequence with
    | .ground => (.ground, true)
    | .string => (if endsString code then .ground else .string, false)
    | other => (other, false)

/-- The characters that show. While a run of them goes on, a sequence that a tab or a line end
has broken into waits, and only a character that does not show takes it up again. -/
def shown (sequence : Sequence) (running : Bool) : Text → Text
  | [] => []
  | c :: rest =>
      if running && (Sequence.ground.read c).2 then
        c :: shown (if c.toNat < 0x80 then sequence else .ground) true rest
      else
        let (next, shows) := sequence.read c
        if shows then c :: shown next true rest else shown next false rest

def plain (text : Text) : Text :=
  shown .ground false text

end Terminal
end MemberDoc.CommandLine
