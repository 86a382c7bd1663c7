import MemberDoc.Config.Codec

set_option autoImplicit false

/-! Finding and loading the configuration of a project. The nearest configuration file counts,
from the start folder upwards, but not beyond the folder of a repository. -/

namespace MemberDoc

inductive LoadError where
  | unreadable (cause : AccessError)
  | undecodable (path : Path) (cause : Json.DecodeError)
  | faulty (fault : ConfigFault)

def LoadError.context (path : Path) : Text :=
  "Failed to parse config file: ".toList ++ Text.quoted path.text

def LoadError.message : LoadError → Text
  | .unreadable cause => cause.message
  | .undecodable path .malformed => context path ++ ": not well-formed JSON".toList
  | .undecodable path (.problem cause) => context path ++ ": ".toList ++ cause.message
  | .faulty fault => fault.message

/-- A configuration and the file it came from. Without a file it is the initial configuration. -/
structure Loaded where
  config : Config
  path : Option Path

/-- The folder to which relative paths refer. -/
def Loaded.base (loaded : Loaded) (start : Path) : Path :=
  (loaded.path.bind Path.parent?).getD start

namespace Config

def repositoryMark : Text :=
  ".git".toList

/-- Search a folder and then its parents, at most as many as the fuel allows. -/
def findFrom? (tree : Tree) : Nat → Path → Option Path
  | 0, _ => none
  | fuel + 1, folder =>
      if tree.hasPath (folder.join fileName) then some (folder.join fileName)
      else if tree.hasPath (folder.join repositoryMark) then none
      else folder.parent?.bind (findFrom? tree fuel)

/-- The configuration file for a start folder. A parent is written shorter than its child, so the
length of the path bounds the search. -/
def find? (tree : Tree) (start : Path) : Option Path :=
  findFrom? tree (start.text.length + 1) start

def load (tree : Tree) (start : Path) : Except LoadError Loaded := do
  match find? tree start with
  | none => return ⟨initial, none⟩
  | some path =>
      let text ← (tree.read path).mapError .unreadable
      let config ← (parse text).mapError (.undecodable path)
      match config.fault? with
      | some fault => .error (.faulty fault)
      | none => return ⟨config, some path⟩

end Config
end MemberDoc
