import MemberDoc.Text.Basic

set_option autoImplicit false

/-! Members to describe on a class or to declare in it. -/

namespace MemberDoc

/-- A type as it is asked for: one text, or a list of alternatives. -/
inductive TypeExpr where
  | one (text : Text)
  | union (alternatives : List Text)
  deriving DecidableEq

/-- The text of a type. Empty alternatives do not count, and nothing at all is no type. -/
def TypeExpr.flatten? (type : TypeExpr) : Option Text :=
  let text := match type with
    | .one text => text
    | .union alternatives => Text.joinWith ['|'] (alternatives.filter (· ≠ []))
  if text = [] then none else some text

structure Argument where
  name : Text
  type : Option Text
  default : Option Text
  deriving DecidableEq

def Argument.signature (argument : Argument) : Text :=
  (match argument.type with
    | some type => type ++ [' ']
    | none => []) ++
  ['$'] ++ argument.name ++
  (match argument.default with
    | some value => [' ', '=', ' '] ++ value
    | none => [])

def Argument.signatures (arguments : List Argument) : Text :=
  Text.joinWith [',', ' '] (arguments.map Argument.signature)

inductive Visibility where
  | everyone
  | descendants
  | owner
  deriving DecidableEq

def Visibility.keyword : Visibility → Text
  | .everyone => "public".toList
  | .descendants => "protected".toList
  | .owner => "private".toList

/-- A property that exists at run time and is only described by a tag. -/
structure VirtualProperty where
  name : Text
  type : Option Text
  readable : Bool
  writable : Bool
  comment : Text
  deriving DecidableEq

/-- A method that exists at run time and is only described by a tag. -/
structure VirtualMethod where
  name : Text
  isStatic : Bool
  arguments : List Argument
  returns : Option Text
  comment : Text
  deriving DecidableEq

structure DeclaredProperty where
  name : Text
  type : Option Text
  default : Option Text
  isStatic : Bool
  comment : Text
  visibility : Visibility
  deriving DecidableEq

structure DeclaredMethod where
  name : Text
  isStatic : Bool
  arguments : List Argument
  returns : Option Text
  comment : Text
  visibility : Visibility
  body : Text
  deriving DecidableEq

end MemberDoc
