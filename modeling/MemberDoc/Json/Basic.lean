import MemberDoc.Json.Decimal
import MemberDoc.Text.Quoted

set_option autoImplicit false

/-! A JSON document as far as it can be read. A reader that goes from front to back reports
the first thing it cannot accept, so a malformed place is part of the tree and stops only the
reader that reaches it. -/

namespace MemberDoc

inductive Json.Number where
  | whole (value : Int)
  | real (value : Float)

inductive Json where
  | null
  | bool (value : Bool)
  | number (value : Json.Number)
  | string (value : Text)
  /-- Items in order; an array that did not end is malformed after them. -/
  | array (items : List Json) (ended : Bool)
  /-- Members in order, repeated keys included. A key that cannot be read has no text. -/
  | object (members : List (Option Text × Json)) (ended : Bool)
  /-- A token that can be skipped and has no value: a lone surrogate or a number out of range. -/
  | unreadable
  /-- A place where the text is not JSON. -/
  | broken

namespace Json

def list (items : List Json) : Json :=
  .array items true

def record (members : List (Text × Json)) : Json :=
  .object (members.map fun (key, value) => (some key, value)) true

def describe : Json → Text
  | .null => "null".toList
  | .bool value => "boolean `".toList ++ (if value then "true" else "false").toList ++ ['\x60']
  | .number (.whole value) => "integer `".toList ++ Text.ofInt value ++ ['\x60']
  | .number (.real value) => "floating point `".toList ++ floatText value ++ ['\x60']
  | .string value => "string ".toList ++ Text.quoted value
  | .array _ _ => "sequence".toList
  | .object _ _ => "map".toList
  | .unreadable => []
  | .broken => []

mutual

def skippable : Json → Bool
  | .array items ended => ended && skippableItems items
  | .object members ended => ended && skippableMembers members
  | .broken => false
  | _ => true

def skippableItems : List Json → Bool
  | [] => true
  | item :: rest => skippable item && skippableItems rest

def skippableMembers : List (Option Text × Json) → Bool
  | [] => true
  | (_, value) :: rest => skippable value && skippableMembers rest

end

mutual

def readable : Json → Bool
  | .array items ended => ended && readableItems items
  | .object members ended => ended && readableMembers members
  | .broken => false
  | .unreadable => false
  | _ => true

def readableItems : List Json → Bool
  | [] => true
  | item :: rest => readable item && readableItems rest

def readableMembers : List (Option Text × Json) → Bool
  | [] => true
  | (key, value) :: rest => key.isSome && readable value && readableMembers rest

end

mutual

/-- How many arrays and objects stand inside one another. -/
def nesting : Json → Nat
  | .array items _ => nestingItems items + 1
  | .object members _ => nestingMembers members + 1
  | _ => 0

def nestingItems : List Json → Nat
  | [] => 0
  | item :: rest => max (nesting item) (nestingItems rest)

def nestingMembers : List (Option Text × Json) → Nat
  | [] => 0
  | (_, value) :: rest => max (nesting value) (nestingMembers rest)

end

def member? (key : Text) : Json → Option Json
  | .object members _ => (members.find? fun (name, _) => name == some key).map Prod.snd
  | _ => none

end Json
end MemberDoc
