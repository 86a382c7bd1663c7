import MemberDoc.ClassName
import MemberDoc.Project.Path

set_option autoImplicit false

/-! What is known about one class when its document is updated. -/

namespace MemberDoc

structure Snapshot where
  /-- The qualified name. -/
  name : Text
  instantiable : Bool
  /-- Names of declared properties, inherited ones included. -/
  properties : List Text
  /-- Names of declared methods, inherited ones included. -/
  methods : List Text
  docComment : Option Text
  /-- The whole text of the document. -/
  source : Text
  path : Path
  deriving DecidableEq

namespace Snapshot

def shortName (snapshot : Snapshot) : Text :=
  ClassName.short snapshot.name

def hasProperty (snapshot : Snapshot) (name : Text) : Bool :=
  snapshot.properties.contains name

def hasMethod (snapshot : Snapshot) (name : Text) : Bool :=
  snapshot.methods.any fun method => Text.sameName method name

end Snapshot
end MemberDoc
