import MemberDoc.Json.Basic

set_option autoImplicit false

/-! Writing JSON text over several lines, two spaces per level. -/

namespace MemberDoc.Json

def escape (c : Char) : Text :=
  if c = '\x22' then ['\\', '\x22']
  else if c = '\\' then ['\\', '\\']
  else if c = '\x08' then ['\\', 'b']
  else if c = '\x0c' then ['\\', 'f']
  else if c = '\n' then ['\\', 'n']
  else if c = '\r' then ['\\', 'r']
  else if c = '\t' then ['\\', 't']
  else if c.toNat < 0x20 then
    ['\\', 'u', '0', '0', Nat.digitChar (c.toNat / 16), Nat.digitChar (c.toNat % 16)]
  else [c]

def literal (value : Text) : Text :=
  ['\x22'] ++ value.flatMap escape ++ ['\x22']

def newLine (level : Nat) : Text :=
  '\n' :: List.replicate (2 * level) ' '

mutual

def pretty (level : Nat) : Json → Text
  | .null => "null".toList
  | .bool true => "true".toList
  | .bool false => "false".toList
  | .number (.whole value) => Text.ofInt value
  | .number (.real value) => floatText value
  | .string value => literal value
  | .array items _ =>
      match prettyItems (level + 1) items with
      | [] => ['[', ']']
      | lines => ['['] ++ Text.joinWith [','] lines ++ newLine level ++ [']']
  | .object members _ =>
      match prettyMembers (level + 1) members with
      | [] => ['\x7b', '\x7d']
      | lines => ['\x7b'] ++ Text.joinWith [','] lines ++ newLine level ++ ['\x7d']
  | .unreadable => []
  | .broken => []

def prettyItems (level : Nat) : List Json → List Text
  | [] => []
  | item :: rest => (newLine level ++ pretty level item) :: prettyItems level rest

def prettyMembers (level : Nat) : List (Option Text × Json) → List Text
  | [] => []
  | (key, value) :: rest =>
      (newLine level ++ literal (key.getD []) ++ [':', ' '] ++ pretty level value) ::
        prettyMembers level rest

end

end MemberDoc.Json
