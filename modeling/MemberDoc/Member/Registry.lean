import MemberDoc.Member.Basic

set_option autoImplicit false

/-! The pending members of a class. The first request for a name wins and later ones change
nothing. Property names are compared exactly, method names up to case, and all methods share
one set of names. -/

namespace MemberDoc

structure Registry where
  virtualProperties : List VirtualProperty
  virtualMethods : List VirtualMethod
  declaredProperties : List DeclaredProperty
  declaredMethods : List DeclaredMethod
  deriving DecidableEq

namespace Registry

def empty : Registry :=
  ⟨[], [], [], []⟩

def virtualProperty? (registry : Registry) (name : Text) : Option VirtualProperty :=
  registry.virtualProperties.find? (·.name == name)

def virtualMethod? (registry : Registry) (name : Text) : Option VirtualMethod :=
  registry.virtualMethods.find? fun method => Text.sameName method.name name

def hasMethod (registry : Registry) (name : Text) : Bool :=
  registry.virtualMethods.any (fun method => Text.sameName method.name name) ||
    registry.declaredMethods.any (fun method => Text.sameName method.name name)

inductive Request where
  | virtualProperty (property : VirtualProperty)
  | virtualMethod (method : VirtualMethod)
  | declaredProperty (property : DeclaredProperty)
  | declaredMethod (method : DeclaredMethod)
  deriving DecidableEq

def add (registry : Registry) : Request → Registry
  | .virtualProperty property =>
      if (registry.virtualProperty? property.name).isSome then registry
      else { registry with virtualProperties := registry.virtualProperties ++ [property] }
  | .virtualMethod method =>
      if registry.hasMethod method.name then registry
      else { registry with virtualMethods := registry.virtualMethods ++ [method] }
  | .declaredProperty property =>
      if registry.declaredProperties.any (·.name == property.name) then registry
      else { registry with declaredProperties := registry.declaredProperties ++ [property] }
  | .declaredMethod method =>
      if registry.hasMethod method.name then registry
      else { registry with declaredMethods := registry.declaredMethods ++ [method] }

def addAll (registry : Registry) (requests : List Request) : Registry :=
  requests.foldl add registry

end Registry
end MemberDoc
