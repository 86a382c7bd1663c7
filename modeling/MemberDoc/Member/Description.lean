import MemberDoc.DocBlock.Tag
import MemberDoc.Member.Basic

set_option autoImplicit false

/-! Tags that describe virtual members. -/

namespace MemberDoc

/-- The name of the tag, by access; a property without any access is read only. -/
def VirtualProperty.tagName (property : VirtualProperty) : Text :=
  match property.readable, property.writable with
  | true, true => "property".toList
  | false, true => "property-write".toList
  | _, false => "property-read".toList

def commentPart (comment : Text) : List Text :=
  if comment = [] then [] else [comment]

/-- The source of a tag such as `@property-read int $name comment`. -/
def VirtualProperty.tagSource (property : VirtualProperty) : Text :=
  Text.joinWith [' ']
    (['@' :: property.tagName] ++ property.type.toList ++ ['$' :: property.name] ++
      commentPart property.comment)

def VirtualProperty.tag? (property : VirtualProperty) : Option Tag :=
  Tag.parse? property.tagSource

/-- The source of a tag such as `@method static void name(arguments) comment`; a method without
a return type returns `void`. -/
def VirtualMethod.tagSource (method : VirtualMethod) : Text :=
  Text.joinWith [' ']
    (["@method".toList] ++ (if method.isStatic then ["static".toList] else []) ++
      [method.returns.getD "void".toList] ++
      [method.name ++ ['('] ++ Argument.signatures method.arguments ++ [')']] ++
      commentPart method.comment)

def VirtualMethod.tag? (method : VirtualMethod) : Option Tag :=
  Tag.parse? method.tagSource

end MemberDoc
