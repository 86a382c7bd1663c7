import MemberDoc.DocBlock.Basic
import MemberDoc.DocBlock.Order
import MemberDoc.Member.Description
import MemberDoc.Member.Registry
import MemberDoc.Snapshot

set_option autoImplicit false

/-! The doc block that a class should have: tags of its present block that stay, and one new
tag for each pending virtual member that neither a tag nor the class itself accounts for. -/

namespace MemberDoc

structure Options where
  /-- Drop every tag that describes a property or a method. -/
  reset : Bool
  /-- Drop a tag if a virtual member of its name is pending. -/
  overwrite : Bool
  /-- Do not write the document. -/
  dryRun : Bool
  deriving DecidableEq

namespace ClassDoc

/-- The present block of a class; a class without one has a summary of its name. -/
def present (snapshot : Snapshot) : DocBlock :=
  match snapshot.docComment.map DocBlock.parse with
  | some (.ok block) => block
  | _ => ⟨"Class ".toList ++ snapshot.name, []⟩

def survives (registry : Registry) (options : Options) (tag : Tag) : Bool :=
  match tag.kind with
  | .property name => !options.reset && !(options.overwrite && (registry.virtualProperty? name).isSome)
  | .method name _ => !options.reset && !(options.overwrite && (registry.virtualMethod? name).isSome)
  | .other => true

def describesProperty (name : Text) (tag : Tag) : Bool :=
  match tag.kind with
  | .property described => described == name
  | _ => false

def describesMethod (name : Text) (tag : Tag) : Bool :=
  match tag.kind with
  | .method described _ => Text.sameName described name
  | _ => false

/-- The tags of the new block, before they are put in order. -/
def tags (snapshot : Snapshot) (registry : Registry) (options : Options) : List Tag :=
  let kept := (present snapshot).tags.filter (survives registry options)
  let properties := registry.virtualProperties.filter fun property =>
    !kept.any (describesProperty property.name) && !snapshot.hasProperty property.name
  let methods := registry.virtualMethods.filter fun method =>
    !kept.any (describesMethod method.name) && !snapshot.hasMethod method.name
  kept ++ properties.filterMap VirtualProperty.tag? ++ methods.filterMap VirtualMethod.tag?

def text (snapshot : Snapshot) (registry : Registry) (options : Options) : Text :=
  DocBlock.serialize ⟨(present snapshot).summary, Tag.sort (tags snapshot registry options)⟩

end ClassDoc
end MemberDoc
