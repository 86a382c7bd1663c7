import MemberDoc.Project.Tree
import MemberDoc.Snapshot
import MemberDoc.Source.Outline

set_option autoImplicit false

/-! A class map says which document declares a class. A snapshot of a class takes the members of
its mapped ancestors in; an ancestor outside the map or met before ends the chain. -/

namespace MemberDoc

structure ClassMap where
  entries : List (Text × Path)
  deriving DecidableEq

inductive ReflectError where
  | unmapped (className : Text)
  | unreadable (path : Path) (cause : AccessError)
  | unscannable (className : Text) (path : Path) (cause : Source.OutlineError)
  deriving DecidableEq

def ReflectError.message : ReflectError → Text
  | .unmapped className => "Class ".toList ++ className ++ " is not in the class map".toList
  | .unreadable path cause => "Failed to read file: ".toList ++ path.text ++ ": ".toList ++ cause.message
  | .unscannable className path cause =>
      "Failed to scan ".toList ++ className ++ " in ".toList ++ path.text ++ ": ".toList ++ cause.message

namespace ClassMap

def empty : ClassMap :=
  ⟨[]⟩

def erase (classes : ClassMap) (className : Text) : ClassMap :=
  ⟨classes.entries.filter (·.1 ≠ ClassName.key className)⟩

/-- Map a class to a document; the last mapping of a class counts. -/
def insert (classes : ClassMap) (className : Text) (path : Path) : ClassMap :=
  ⟨(classes.erase className).entries ++ [(ClassName.key className, path)]⟩

def path? (classes : ClassMap) (className : Text) : Option Path :=
  classes.entries.lookup (ClassName.key className)

def inspect (tree : Tree) (className : Text) (path : Path) :
    Except ReflectError (Text × Source.Outline) := do
  let source ← (tree.read path).mapError (.unreadable path)
  let outline ← (Source.outline source className).mapError (.unscannable className path)
  return (source, outline)

/-- Add the members of a parent and of its ancestors. A class is taken out of the map when it is
visited, so the number of mapped classes bounds the chain. -/
def inherit (tree : Tree) : Nat → ClassMap → Option Text → Source.MemberNames →
    Except ReflectError Source.MemberNames
  | 0, _, _, names => .ok names
  | _ + 1, _, none, names => .ok names
  | fuel + 1, classes, some parent, names =>
      match classes.path? parent with
      | none => .ok names
      | some path => do
          let (_, outline) ← inspect tree parent path
          inherit tree fuel (classes.erase parent) outline.parent
            ⟨outline.properties.foldl Text.pushNew names.properties,
              outline.methods.foldl Text.pushNew names.methods⟩

def reflect (classes : ClassMap) (tree : Tree) (className : Text) : Except ReflectError Snapshot := do
  let name := ClassName.qualified className
  let path ← match classes.path? name with
    | some path => .ok path
    | none => .error (.unmapped name)
  let (source, outline) ← inspect tree name path
  let names ← inherit tree classes.entries.length classes outline.parent
    ⟨outline.properties, outline.methods⟩
  return {
    name
    instantiable := outline.isInstantiable
    properties := names.properties
    methods := names.methods
    docComment := outline.docComment.map (·.text)
    source
    path }

end ClassMap
end MemberDoc
