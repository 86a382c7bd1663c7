import MemberDoc.ClassMap
import MemberDoc.Member.Registry

set_option autoImplicit false

/-! Configurations: which classes to annotate, in which documents, and with which members. -/

namespace MemberDoc

structure ArgumentSpec where
  name : Text
  type : Option TypeExpr
  default : Option Text
  deriving DecidableEq

structure PropertySpec where
  name : Text
  type : Option TypeExpr
  read : Bool
  write : Bool
  comment : Text
  deriving DecidableEq

structure MethodSpec where
  name : Text
  arguments : List ArgumentSpec
  returns : Option TypeExpr
  isStatic : Bool
  comment : Text
  deriving DecidableEq

structure DeclaredPropertySpec where
  name : Text
  type : Option TypeExpr
  default : Option Text
  isStatic : Bool
  comment : Text
  visibility : Visibility
  deriving DecidableEq

structure DeclaredMethodSpec where
  name : Text
  arguments : List ArgumentSpec
  returns : Option TypeExpr
  isStatic : Bool
  comment : Text
  visibility : Visibility
  body : Text
  deriving DecidableEq

structure ClassTarget where
  className : Text
  file : Text
  properties : List PropertySpec
  methods : List MethodSpec
  declaredProperties : List DeclaredPropertySpec
  declaredMethods : List DeclaredMethodSpec
  deriving DecidableEq

structure Config where
  sourceRoot : Text
  reset : Bool
  overwrite : Bool
  classes : List ClassTarget
  deriving DecidableEq

namespace Config

def defaultSourceRoot : Text :=
  ['.', '/']

def initial : Config :=
  ⟨defaultSourceRoot, false, false, []⟩

def fileName : Text :=
  ".vmdocrc.json".toList

end Config

def ArgumentSpec.argument (spec : ArgumentSpec) : Argument :=
  ⟨spec.name, spec.type.bind TypeExpr.flatten?, spec.default⟩

def PropertySpec.member (spec : PropertySpec) : VirtualProperty where
  name := spec.name
  type := spec.type.bind TypeExpr.flatten?
  readable := spec.read
  writable := spec.write
  comment := spec.comment

def MethodSpec.member (spec : MethodSpec) : VirtualMethod where
  name := spec.name
  isStatic := spec.isStatic
  arguments := spec.arguments.map ArgumentSpec.argument
  returns := spec.returns.bind TypeExpr.flatten?
  comment := spec.comment

def DeclaredPropertySpec.member (spec : DeclaredPropertySpec) : DeclaredProperty where
  name := spec.name
  type := spec.type.bind TypeExpr.flatten?
  default := spec.default
  isStatic := spec.isStatic
  comment := spec.comment
  visibility := spec.visibility

def DeclaredMethodSpec.member (spec : DeclaredMethodSpec) : DeclaredMethod where
  name := spec.name
  isStatic := spec.isStatic
  arguments := spec.arguments.map ArgumentSpec.argument
  returns := spec.returns.bind TypeExpr.flatten?
  comment := spec.comment
  visibility := spec.visibility
  body := spec.body

/-- The members of a target, in the order in which they are requested. -/
def ClassTarget.requests (target : ClassTarget) : List Registry.Request :=
  target.properties.map (.virtualProperty ·.member) ++
    target.methods.map (.virtualMethod ·.member) ++
    target.declaredProperties.map (.declaredProperty ·.member) ++
    target.declaredMethods.map (.declaredMethod ·.member)

inductive ConfigFault where
  | noClassName (index : Nat)
  | noFile (className : Text)
  | duplicateClass (className : Text)
  deriving DecidableEq

def ConfigFault.message : ConfigFault → Text
  | .noClassName index => "Missing class name in 'classes[".toList ++ Text.ofNat index ++ "]'".toList
  | .noFile className => "Missing file for class \"".toList ++ className ++ "\"".toList
  | .duplicateClass className => "Duplicate class in 'classes': \"".toList ++ className ++ "\"".toList

namespace Config

/-- The first fault of some targets, of which the first has a given index and before which some
keys have been taken. -/
def firstFault? (taken : List Text) (index : Nat) : List ClassTarget → Option ConfigFault
  | [] => none
  | target :: rest =>
      if (Text.trim target.className).dropWhile (· == '\\') = [] then some (.noClassName index)
      else if Text.trim target.file = [] then some (.noFile target.className)
      else if taken.contains (ClassName.key target.className) then
        some (.duplicateClass target.className)
      else firstFault? (ClassName.key target.className :: taken) (index + 1) rest

def fault? (config : Config) : Option ConfigFault :=
  firstFault? [] 0 config.classes

def documentPath (config : Config) (base : Path) (target : ClassTarget) : Path :=
  ((base.join config.sourceRoot).join target.file).normal

def classMap (config : Config) (base : Path) : ClassMap :=
  config.classes.foldl
    (fun classes target => classes.insert target.className (config.documentPath base target)) .empty

end Config
end MemberDoc
