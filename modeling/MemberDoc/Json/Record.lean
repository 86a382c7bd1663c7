import MemberDoc.Json.Basic

set_option autoImplicit false

/-! Typed reading of JSON. A record may be written as an object or as an array of its fields.
Values are taken in document order and the first problem is reported; a field that is absent
is noticed at the end of its object, in the order of declaration. -/

namespace MemberDoc.Json

/-- Why a value has not the wanted shape. -/
inductive Problem where
  | missingField (name : Text)
  | duplicateField (name : Text)
  | wrongType (found expected : Text)
  | wrongLength (length : Nat) (expected : Text)
  | unknownVariant (found : Text) (known : List Text)
  | noVariant (title : Text)
  | notSingleKey

def Problem.message : Problem → Text
  | .missingField name => "missing field `".toList ++ name ++ ['\x60']
  | .duplicateField name => "duplicate field `".toList ++ name ++ ['\x60']
  | .wrongType found expected => "invalid type: ".toList ++ found ++ ", expected ".toList ++ expected
  | .wrongLength length expected =>
      "invalid length ".toList ++ Text.ofNat length ++ ", expected ".toList ++ expected
  | .unknownVariant found known =>
      "unknown variant `".toList ++ found ++ "`, expected one of ".toList ++
        Text.joinWith ", ".toList (known.map fun name => ['\x60'] ++ name ++ ['\x60'])
  | .noVariant title => "data did not match any variant of untagged enum ".toList ++ title
  | .notSingleKey => "invalid value: map, expected map with a single key".toList

inductive DecodeError where
  /-- The text is not JSON, or breaks off where more is wanted. -/
  | malformed
  | problem (cause : Problem)

/-- A complete value, or a text that is read from front to back. A text differs where an array
holds too much or where the first character already rules a value out: then it is malformed. -/
inductive Origin where
  | value
  | text
  deriving DecidableEq

abbrev Decoder (α : Type) := Json → Except DecodeError α

def fail {α : Type} (cause : Problem) : Except DecodeError α :=
  .error (.problem cause)

def mismatch {α : Type} (expected : String) : Decoder α
  | .broken => .error .malformed
  | .unreadable => .error .malformed
  | other => fail (.wrongType other.describe expected.toList)

def decodeBool : Decoder Bool
  | .bool value => .ok value
  | other => mismatch "a boolean" other

def decodeText : Decoder Text
  | .string value => .ok value
  | other => mismatch "a string" other

def decodeOptional {α : Type} (decoder : Decoder α) : Decoder (Option α)
  | .null => .ok none
  | other => (decoder other).map some

def decodeItems {α : Type} (decoder : Decoder α) : List Json → Except DecodeError (List α)
  | [] => .ok []
  | item :: rest => do
      let first ← decoder item
      let others ← decodeItems decoder rest
      return first :: others

def decodeList {α : Type} (decoder : Decoder α) : Decoder (List α)
  | .array items ended => do
      let values ← decodeItems decoder items
      if ended then return values else .error .malformed
  | other => mismatch "a sequence" other

structure Field where
  name : Text
  required : Bool
  check : Json → Except DecodeError Unit

def Field.needs {α : Type} (name : String) (decoder : Decoder α) : Field :=
  ⟨name.toList, true, fun value => (decoder value).map fun _ => ()⟩

def Field.takes {α : Type} (name : String) (decoder : Decoder α) : Field :=
  ⟨name.toList, false, fun value => (decoder value).map fun _ => ()⟩

/-- The values of a record by field name; all of them have passed their checks. -/
abbrev Slots := List (Text × Json)

/-- Members of an object in document order. Unknown members are passed over. -/
def openMembers (fields : List Field) (seen : Slots) :
    List (Option Text × Json) → Except DecodeError Slots
  | [] => .ok seen
  | (none, _) :: _ => .error .malformed
  | (some key, value) :: rest =>
      match fields.find? (·.name == key) with
      | none => if value.skippable then openMembers fields seen rest else .error .malformed
      | some field =>
          if seen.any (·.1 == key) then fail (.duplicateField key)
          else do
            field.check value
            openMembers fields (seen ++ [(key, value)]) rest

def checkMissing (slots : Slots) (fields : List Field) : Except DecodeError Unit :=
  match fields.find? fun field => field.required && !slots.any (·.1 == field.name) with
  | some field => fail (.missingField field.name)
  | none => .ok ()

/-- Items of an array as the fields in order, starting at a position. -/
def openItems (expected : Text) (ended : Bool) (position : Nat) :
    List Field → List Json → Except DecodeError Slots
  | [], _ => .ok []
  | field :: fields, [] =>
      if !ended then .error .malformed
      else if field.required then fail (.wrongLength position expected)
      else openItems expected ended (position + 1) fields []
  | field :: fields, item :: items => do
      field.check item
      let others ← openItems expected ended (position + 1) fields items
      return (field.name, item) :: others

def openRecord (origin : Origin) (title : String) (fields : List Field) : Decoder Slots
  | .object members ended => do
      let slots ← openMembers fields [] members
      if !ended then .error .malformed
      checkMissing slots fields
      return slots
  | .array items ended => do
      let expected := "struct ".toList ++ title.toList ++ " with ".toList ++ Text.ofNat fields.length ++
        " elements".toList
      let slots ← openItems expected ended 0 fields items
      if items.length ≤ fields.length && ended then return slots
      match origin with
      | .text => .error .malformed
      | .value => fail (.wrongLength items.length "fewer elements in array".toList)
  | other => mismatch ("struct " ++ title) other

def Slots.required {α : Type} (slots : Slots) (name : String) (decoder : Decoder α) :
    Except DecodeError α :=
  match slots.lookup name.toList with
  | some value => decoder value
  | none => fail (.missingField name.toList)

def Slots.defaulted {α : Type} (slots : Slots) (name : String) (default : α) (decoder : Decoder α) :
    Except DecodeError α :=
  match slots.lookup name.toList with
  | some value => decoder value
  | none => .ok default

end MemberDoc.Json
