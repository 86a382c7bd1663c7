import MemberDoc.Member.Code
import MemberDoc.Member.Registry
import MemberDoc.Snapshot
import MemberDoc.Text.Identifier

set_option autoImplicit false

/-! Putting a doc block and declared members into the text of a document. Places are found by
plain search: a block stands before the first `class` with the name of the class, properties
behind the first brace of the first class, and methods before the last brace of the document. -/

namespace MemberDoc.Insertion

/-- Exchange the first occurrence of the old block, or put the new one on lines of its own before
the class. -/
def placeBlock (source : Text) (old : Option Text) (new shortName : Text) : Text :=
  match old with
  | some old => Text.replaceFirst old new source
  | none =>
      let needle := "class ".toList ++ shortName
      match Text.splitFirst? needle source with
      | some (lead, tail) => lead ++ new ++ ['\n'] ++ needle ++ tail
      | none => source

/-- A letter, digit or underscore of a class name, up to case folding. -/
def isPlainNameChar (c : Char) : Bool :=
  (Text.foldCase c).isAlphanum || c == '_'

/-- A class head at the start of a text: the keyword, one blank and a name. -/
def isClassHead (text : Text) : Bool :=
  match Text.afterKeyword? "class".toList text with
  | some (blank :: c :: _) => Text.isBlank blank && isPlainNameChar c
  | _ => false

/-- A text cut before its first class head. -/
def splitClassHead? : Text → Option (Text × Text)
  | [] => none
  | c :: rest =>
      if isClassHead (c :: rest) then some ([], c :: rest)
      else (splitClassHead? rest).map fun (lead, tail) => (c :: lead, tail)

/-- A text cut behind the brace that opens the body of its first class, which has to follow an
opening tag. -/
def splitBodyOpen? (source : Text) : Option (Text × Text) := do
  let openTag := ['<', '?']
  let (lead, tail) ← Text.splitFirst? openTag source
  let (middle, tail) ← splitClassHead? tail
  let (head, tail) ← Text.splitFirst? ['\x7b'] tail
  return (lead ++ openTag ++ middle ++ head ++ ['\x7b'], tail)

/-- Members with an empty line between them, on lines of their own. -/
def memberBlock (members : List Text) : Text :=
  ['\n'] ++ Text.joinWith ['\n', '\n'] members ++ ['\n']

def insertProperties (source : Text) (members : List Text) : Text :=
  if members = [] then source
  else match splitBodyOpen? source with
    | some (lead, tail) => lead ++ memberBlock members ++ tail
    | none => source

def insertMethods (source : Text) (members : List Text) : Text :=
  if members = [] then source
  else match Text.splitLast? '\x7d' source with
    | some (lead, tail) => lead ++ memberBlock members ++ ['\x7d'] ++ tail
    | none => source

def missingProperties (snapshot : Snapshot) (registry : Registry) : List DeclaredProperty :=
  registry.declaredProperties.filter fun property => !snapshot.hasProperty property.name

def missingMethods (snapshot : Snapshot) (registry : Registry) : List DeclaredMethod :=
  registry.declaredMethods.filter fun method => !snapshot.hasMethod method.name

def edit (snapshot : Snapshot) (registry : Registry) (block : Text) : Text :=
  let source := placeBlock snapshot.source snapshot.docComment block snapshot.shortName
  let source := insertProperties source ((missingProperties snapshot registry).map DeclaredProperty.code)
  insertMethods source ((missingMethods snapshot registry).map DeclaredMethod.code)

end MemberDoc.Insertion
