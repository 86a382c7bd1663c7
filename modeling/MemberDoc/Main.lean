import MemberDoc.CommandLine.Run

set_option autoImplicit false

/-! The program on real files. The files that a call can touch are loaded into a tree, the call
is run on the tree, and the documents that have changed are written back. -/

namespace MemberDoc.Program

def stringOf (text : Text) : String :=
  String.ofList text

/-- A file, a folder or nothing at a path. A file counts as writable if it can be opened so. -/
def loadEntry (path : Text) : IO (Option Entry) := do
  try
    let bytes ← IO.FS.readBinFile (stringOf path)
    let contents := match String.fromUTF8? bytes with
      | some text => Contents.text text.toList
      | none => Contents.bytes bytes.toList
    let writable ← try
        let _ ← IO.FS.Handle.mk (stringOf path) .append
        pure true
      catch _ => pure false
    return some (.document contents writable)
  catch
    | .noFileOrDirectory _ _ _ => return none
    | .inappropriateType _ _ _ => return some .folder
    | _ => return none

def addFolder (tree : Tree) (place : List Text) : Tree :=
  (List.range (place.length + 1)).foldl
    (fun tree count =>
      let folder := place.take count
      if (tree.entry? folder).isSome then tree else tree.insert folder .folder)
    tree

/-- The place of an absolute path, with double dots resolved as they are written. -/
def placeOf (path : Path) : List Text :=
  path.components.foldl
    (fun place segment => if segment = ['.', '.'] then place.dropLast else place ++ [segment]) []

def addPath (tree : Tree) (path : Path) : IO Tree := do
  match ← loadEntry path.text with
  | some entry => return (addFolder tree (placeOf path).dropLast).insert (placeOf path) entry
  | none => return addFolder tree (placeOf path).dropLast

def ancestors : Nat → Path → List Path
  | 0, _ => []
  | fuel + 1, folder =>
      folder :: match folder.parent? with
        | some parent => ancestors fuel parent
        | none => []

/-- The tree for a call: configuration files, repository marks and configured documents. -/
def loadTree (folder : Path) : IO Tree := do
  let marks := (ancestors folder.text.length folder).flatMap fun folder =>
    [folder.join Config.fileName, folder.join Config.repositoryMark]
  let tree ← marks.foldlM addPath (addFolder ⟨[]⟩ (placeOf folder))
  match Config.load tree folder with
  | .error _ => return tree
  | .ok loaded => ((loaded.config.classMap (loaded.base folder)).entries.map Prod.snd).foldlM addPath tree

def storeChanges (before after : Tree) : IO Unit :=
  after.entries.forM fun (place, entry) => do
    match entry with
    | .document (.text text) _ =>
        if before.entry? place ≠ some entry then
          IO.FS.writeFile (stringOf ('/' :: Text.joinWith ['/'] place)) (stringOf text)
    | _ => pure ()

def loadEnvironment : IO CommandLine.Environment := do
  let names := ["VMDOC_RESET", "VMDOC_OVERWRITE", "CLICOLOR_FORCE", "NO_COLOR"]
  names.filterMapM fun name => do
    return (← IO.getEnv name).map fun value => (name.toList, value.toList)

def run (arguments : List String) : IO UInt32 := do
  let folder : Path := ⟨(← IO.currentDir).toString.toList⟩
  let tree ← loadTree folder
  let call := CommandLine.Call.mk (arguments.map String.toList) folder (← loadEnvironment)
  let finish := CommandLine.run call tree
  storeChanges tree finish.tree
  IO.print (stringOf finish.output)
  IO.eprint (stringOf finish.errors)
  return UInt32.ofNat finish.exitCode

end MemberDoc.Program

def main (arguments : List String) : IO UInt32 :=
  MemberDoc.Program.run arguments
