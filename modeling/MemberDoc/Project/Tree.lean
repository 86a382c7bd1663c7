import MemberDoc.Project.Path

set_option autoImplicit false

/-! A tree of folders and documents, and the ways in which reading and writing can fail. -/

namespace MemberDoc

inductive Contents where
  | text (text : Text)
  /-- Bytes that are not UTF-8. -/
  | bytes (bytes : List UInt8)
  deriving DecidableEq

inductive Entry where
  | folder
  | document (contents : Contents) (writable : Bool)
  deriving DecidableEq

inductive AccessError where
  | missing
  | denied
  | notFolder
  | isFolder
  | notText
  | zeroInName
  | longName
  deriving DecidableEq

def AccessError.message : AccessError → Text
  | .missing => "No such file or directory (os error 2)".toList
  | .denied => "Permission denied (os error 13)".toList
  | .notFolder => "Not a directory (os error 20)".toList
  | .isFolder => "Is a directory (os error 21)".toList
  | .notText => "stream did not contain valid UTF-8".toList
  | .zeroInName => "file name contained an unexpected NUL byte".toList
  | .longName => "File name too long (os error 36)".toList

/-- Entries by their place, the names on the way from the root. -/
structure Tree where
  entries : List (List Text × Entry)
  deriving DecidableEq

namespace Tree

def entry? (tree : Tree) (place : List Text) : Option Entry :=
  if place = [] then some .folder else tree.entries.lookup place

/-- A name may take 255 bytes. -/
def isLongName (name : Text) : Bool :=
  255 < Text.byteLength name

/-- Follow the pieces of a path; each one but the last has to be a folder. -/
def walk (tree : Tree) : List Text → List Text → Except AccessError (List Text)
  | place, [] => .ok place
  | place, segment :: rest =>
      match tree.entry? place with
      | none => .error .missing
      | some (.document _ _) => .error .notFolder
      | some .folder =>
          if Path.isRedundant segment then tree.walk place rest
          else if segment = ['.', '.'] then tree.walk place.dropLast rest
          else if isLongName segment then .error .longName
          else if (tree.entry? (place ++ [segment])).isSome then tree.walk (place ++ [segment]) rest
          else .error .missing

/-- What rules a path out before it is followed. A path may take 4095 bytes. -/
def pathFault? (path : Path) : Option AccessError :=
  if path.text.any (·.toNat = 0) then some .zeroInName
  else if path.text = [] then some .missing
  else if 4095 < Text.byteLength path.text then some .longName
  else none

def locate (tree : Tree) (path : Path) : Except AccessError (List Text) :=
  match pathFault? path with
  | some fault => .error fault
  | none => tree.walk [] (Text.splitOn '/' path.text)

def hasPath (tree : Tree) (path : Path) : Bool :=
  match tree.locate path with
  | .ok place => (tree.entry? place).isSome
  | .error _ => false

def read (tree : Tree) (path : Path) : Except AccessError Text := do
  match tree.entry? (← tree.locate path) with
  | none => .error .missing
  | some .folder => .error .isFolder
  | some (.document (.text text) _) => .ok text
  | some (.document (.bytes _) _) => .error .notText

def erase (tree : Tree) (place : List Text) : Tree :=
  ⟨tree.entries.filter (·.1 ≠ place)⟩

def insert (tree : Tree) (place : List Text) (entry : Entry) : Tree :=
  ⟨(tree.erase place).entries ++ [(place, entry)]⟩

/-- Where a document of a given path may be written: its folder has to exist, and a path that ends
with a separator or a dot names a folder. -/
def target (tree : Tree) (path : Path) : Except AccessError (List Text) := do
  if let some fault := pathFault? path then .error fault
  let segments := Text.splitOn '/' path.text
  match (segments.reverse.dropWhile List.isEmpty) with
  | [] => .error .isFolder
  | last :: above =>
      let folder ← tree.walk [] (above.reverse ++ [[]])
      if last = ['.'] || last = ['.', '.'] then
        let _ ← tree.walk folder [last]
        .error .isFolder
      if segments.getLast? = some [] then .error .isFolder
      if isLongName last then .error .longName
      return folder ++ [last]

def write (tree : Tree) (path : Path) (text : Text) : Except AccessError Tree := do
  let place ← tree.target path
  match tree.entry? place with
  | some .folder => .error .isFolder
  | some (.document _ false) => .error .denied
  | _ => return tree.insert place (.document (.text text) true)

end Tree
end MemberDoc
