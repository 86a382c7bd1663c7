import MemberDoc.Config.Basic
import MemberDoc.Json.Printer
import MemberDoc.Json.Reader
import MemberDoc.Json.Record

set_option autoImplicit false

/-! Configurations as JSON. Member lists that are empty and optional fields that are absent are
left out when a configuration is written, and have these values when they are missing. -/

namespace MemberDoc

open Json (Origin Decoder DecodeError Field decodeBool decodeText decodeList decodeOptional openRecord)

/-- The number of arrays and objects that may stand inside one another in a text. -/
def nestingLimit : Nat :=
  127

namespace TypeExpr

def toJson : TypeExpr → Json
  | .one text => .string text
  | .union alternatives => .list (alternatives.map .string)

/-- A text or a list of texts. The level is the number of arrays and objects around the value. -/
def ofJson (origin : Origin) (level : Nat) : Decoder TypeExpr
  | .string text => .ok (.one text)
  | value =>
      if !value.readable || (origin = .text && nestingLimit < level + value.nesting) then .error .malformed
      else match value with
        | .array items _ =>
            match Json.decodeItems decodeText items with
            | .ok alternatives => .ok (.union alternatives)
            | .error _ => Json.fail (.noVariant "TypeRef".toList)
        | _ => Json.fail (.noVariant "TypeRef".toList)

end TypeExpr

namespace Visibility

def all : List Visibility :=
  [.everyone, .descendants, .owner]

def toJson (visibility : Visibility) : Json :=
  .string visibility.keyword

def ofKeyword (keyword : Text) : Except DecodeError Visibility :=
  match all.find? (·.keyword == keyword) with
  | some visibility => .ok visibility
  | none => Json.fail (.unknownVariant keyword (all.map Visibility.keyword))

def unitOf : Decoder Unit
  | .null => .ok ()
  | other => Json.mismatch "unit" other

/-- A keyword, or an object with the keyword as its only key and `null` as its value. -/
def ofJson (origin : Origin) : Decoder Visibility
  | .string keyword => ofKeyword keyword
  | .object members ended =>
      match origin, members with
      | .text, (some keyword, value) :: rest => do
          let visibility ← ofKeyword keyword
          unitOf value
          if rest.isEmpty && ended then return visibility else .error .malformed
      | .text, _ => .error .malformed
      | .value, [(some keyword, value)] => do
          let visibility ← ofKeyword keyword
          unitOf value
          return visibility
      | .value, _ => Json.fail .notSingleKey
  | other =>
      match origin with
      | .text => .error .malformed
      | .value => Json.mismatch "string or map" other

end Visibility

/-- A member of an object that is left out if it is absent. -/
def optionalMember (name : String) (value : Option Json) : List (Text × Json) :=
  value.toList.map fun value => (name.toList, value)

/-- A member of an object that is left out if its list is empty. -/
def listMember (name : String) (values : List Json) : List (Text × Json) :=
  if values.isEmpty then [] else [(name.toList, .list values)]

namespace ArgumentSpec

def toJson (spec : ArgumentSpec) : Json :=
  .record ([("name".toList, .string spec.name)] ++
    optionalMember "type" (spec.type.map TypeExpr.toJson) ++
    optionalMember "default" (spec.default.map .string))

def ofJson (origin : Origin) (level : Nat) (json : Json) : Except DecodeError ArgumentSpec := do
  let typeOf := decodeOptional (TypeExpr.ofJson origin (level + 1))
  let slots ← openRecord origin "ArgumentSpec"
    [.needs "name" decodeText, .takes "type" typeOf, .takes "default" (decodeOptional decodeText)] json
  return {
    name := ← slots.required "name" decodeText
    type := ← slots.defaulted "type" none typeOf
    default := ← slots.defaulted "default" none (decodeOptional decodeText) }

end ArgumentSpec

namespace PropertySpec

def toJson (spec : PropertySpec) : Json :=
  .record ([("name".toList, .string spec.name)] ++
    optionalMember "type" (spec.type.map TypeExpr.toJson) ++
    [("read".toList, .bool spec.read), ("write".toList, .bool spec.write),
      ("comment".toList, .string spec.comment)])

def ofJson (origin : Origin) (level : Nat) (json : Json) : Except DecodeError PropertySpec := do
  let typeOf := decodeOptional (TypeExpr.ofJson origin (level + 1))
  let slots ← openRecord origin "PropertySpec"
    [.needs "name" decodeText, .takes "type" typeOf, .takes "read" decodeBool, .takes "write" decodeBool,
      .takes "comment" decodeText] json
  return {
    name := ← slots.required "name" decodeText
    type := ← slots.defaulted "type" none typeOf
    read := ← slots.defaulted "read" false decodeBool
    write := ← slots.defaulted "write" false decodeBool
    comment := ← slots.defaulted "comment" [] decodeText }

end PropertySpec

namespace MethodSpec

def toJson (spec : MethodSpec) : Json :=
  .record ([("name".toList, .string spec.name),
      ("arguments".toList, .list (spec.arguments.map ArgumentSpec.toJson))] ++
    optionalMember "return" (spec.returns.map TypeExpr.toJson) ++
    [("static".toList, .bool spec.isStatic), ("comment".toList, .string spec.comment)])

def ofJson (origin : Origin) (level : Nat) (json : Json) : Except DecodeError MethodSpec := do
  let argumentsOf := decodeList (ArgumentSpec.ofJson origin (level + 2))
  let typeOf := decodeOptional (TypeExpr.ofJson origin (level + 1))
  let slots ← openRecord origin "MethodSpec"
    [.needs "name" decodeText, .takes "arguments" argumentsOf, .takes "return" typeOf,
      .takes "static" decodeBool, .takes "comment" decodeText] json
  return {
    name := ← slots.required "name" decodeText
    arguments := ← slots.defaulted "arguments" [] argumentsOf
    returns := ← slots.defaulted "return" none typeOf
    isStatic := ← slots.defaulted "static" false decodeBool
    comment := ← slots.defaulted "comment" [] decodeText }

end MethodSpec

namespace DeclaredPropertySpec

def toJson (spec : DeclaredPropertySpec) : Json :=
  .record ([("name".toList, .string spec.name)] ++
    optionalMember "type" (spec.type.map TypeExpr.toJson) ++
    optionalMember "default" (spec.default.map .string) ++
    [("static".toList, .bool spec.isStatic), ("comment".toList, .string spec.comment),
      ("visibility".toList, spec.visibility.toJson)])

def ofJson (origin : Origin) (level : Nat) (json : Json) : Except DecodeError DeclaredPropertySpec := do
  let typeOf := decodeOptional (TypeExpr.ofJson origin (level + 1))
  let slots ← openRecord origin "DeclaredPropertySpec"
    [.needs "name" decodeText, .takes "type" typeOf, .takes "default" (decodeOptional decodeText),
      .takes "static" decodeBool, .takes "comment" decodeText,
      .takes "visibility" (Visibility.ofJson origin)] json
  return {
    name := ← slots.required "name" decodeText
    type := ← slots.defaulted "type" none typeOf
    default := ← slots.defaulted "default" none (decodeOptional decodeText)
    isStatic := ← slots.defaulted "static" false decodeBool
    comment := ← slots.defaulted "comment" [] decodeText
    visibility := ← slots.defaulted "visibility" .everyone (Visibility.ofJson origin) }

end DeclaredPropertySpec

namespace DeclaredMethodSpec

def toJson (spec : DeclaredMethodSpec) : Json :=
  .record ([("name".toList, .string spec.name),
      ("arguments".toList, .list (spec.arguments.map ArgumentSpec.toJson))] ++
    optionalMember "return" (spec.returns.map TypeExpr.toJson) ++
    [("static".toList, .bool spec.isStatic), ("comment".toList, .string spec.comment),
      ("visibility".toList, spec.visibility.toJson), ("body".toList, .string spec.body)])

def ofJson (origin : Origin) (level : Nat) (json : Json) : Except DecodeError DeclaredMethodSpec := do
  let argumentsOf := decodeList (ArgumentSpec.ofJson origin (level + 2))
  let typeOf := decodeOptional (TypeExpr.ofJson origin (level + 1))
  let slots ← openRecord origin "DeclaredMethodSpec"
    [.needs "name" decodeText, .takes "arguments" argumentsOf, .takes "return" typeOf,
      .takes "static" decodeBool, .takes "comment" decodeText,
      .takes "visibility" (Visibility.ofJson origin), .takes "body" decodeText] json
  return {
    name := ← slots.required "name" decodeText
    arguments := ← slots.defaulted "arguments" [] argumentsOf
    returns := ← slots.defaulted "return" none typeOf
    isStatic := ← slots.defaulted "static" false decodeBool
    comment := ← slots.defaulted "comment" [] decodeText
    visibility := ← slots.defaulted "visibility" .everyone (Visibility.ofJson origin)
    body := ← slots.defaulted "body" [] decodeText }

end DeclaredMethodSpec

namespace ClassTarget

def toJson (target : ClassTarget) : Json :=
  .record ([("class".toList, .string target.className), ("file".toList, .string target.file)] ++
    listMember "properties" (target.properties.map PropertySpec.toJson) ++
    listMember "methods" (target.methods.map MethodSpec.toJson) ++
    listMember "declaredProperties" (target.declaredProperties.map DeclaredPropertySpec.toJson) ++
    listMember "declaredMethods" (target.declaredMethods.map DeclaredMethodSpec.toJson))

def ofJson (origin : Origin) (level : Nat) (json : Json) : Except DecodeError ClassTarget := do
  let propertiesOf := decodeList (PropertySpec.ofJson origin (level + 2))
  let methodsOf := decodeList (MethodSpec.ofJson origin (level + 2))
  let declaredPropertiesOf := decodeList (DeclaredPropertySpec.ofJson origin (level + 2))
  let declaredMethodsOf := decodeList (DeclaredMethodSpec.ofJson origin (level + 2))
  let slots ← openRecord origin "ClassTarget"
    [.needs "class" decodeText, .needs "file" decodeText, .takes "properties" propertiesOf,
      .takes "methods" methodsOf, .takes "declaredProperties" declaredPropertiesOf,
      .takes "declaredMethods" declaredMethodsOf] json
  return {
    className := ← slots.required "class" decodeText
    file := ← slots.required "file" decodeText
    properties := ← slots.defaulted "properties" [] propertiesOf
    methods := ← slots.defaulted "methods" [] methodsOf
    declaredProperties := ← slots.defaulted "declaredProperties" [] declaredPropertiesOf
    declaredMethods := ← slots.defaulted "declaredMethods" [] declaredMethodsOf }

end ClassTarget

namespace Config

def toJson (config : Config) : Json :=
  .record [("sourceRoot".toList, .string config.sourceRoot), ("reset".toList, .bool config.reset),
    ("overwrite".toList, .bool config.overwrite),
    ("classes".toList, .list (config.classes.map ClassTarget.toJson))]

def ofJson (origin : Origin) (json : Json) : Except DecodeError Config := do
  let classesOf := decodeList (ClassTarget.ofJson origin 2)
  let slots ← openRecord origin "Config"
    [.takes "sourceRoot" decodeText, .takes "reset" decodeBool, .takes "overwrite" decodeBool,
      .takes "classes" classesOf] json
  return {
    sourceRoot := ← slots.defaulted "sourceRoot" defaultSourceRoot decodeText
    reset := ← slots.defaulted "reset" false decodeBool
    overwrite := ← slots.defaulted "overwrite" false decodeBool
    classes := ← slots.defaulted "classes" [] classesOf }

/-- Read a configuration file. Text behind the value is noticed last. -/
def parse (text : Text) : Except DecodeError Config := do
  let document := Json.read text
  let config ← ofJson .text document.value
  if document.alone then return config else .error .malformed

def initialText : Text :=
  initial.toJson.pretty 0

end Config
end MemberDoc
