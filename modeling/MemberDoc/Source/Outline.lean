import MemberDoc.Source.Declaration
import MemberDoc.Source.Mask
import MemberDoc.Source.Members

set_option autoImplicit false

/-! The outline of a class: its kind, its parent, the names of its members and its doc comment,
found in the text of a source. -/

namespace MemberDoc.Source

structure Outline where
  kind : ClassKind
  isAbstract : Bool
  parent : Option Text
  properties : List Text
  methods : List Text
  docComment : Option DocComment
  deriving DecidableEq

def Outline.isInstantiable (outline : Outline) : Bool :=
  outline.kind = .plain && !outline.isAbstract

inductive OutlineError where
  | noDeclaration (className : Text)
  | otherNamespace (name found expected : Text)
  | noBody (className : Text)
  deriving DecidableEq

def OutlineError.message : OutlineError → Text
  | .noDeclaration className => "No declaration of ".toList ++ className ++ " found".toList
  | .otherNamespace name found expected =>
      name ++ " is declared in namespace '".toList ++ found ++ "', expected '".toList ++ expected ++
        "'".toList
  | .noBody className => "Declaration of ".toList ++ className ++ " has no body".toList

/-- What a gap between a doc comment and a keyword goes on with. -/
inductive Gap where
  /-- Something new, after this many more letters. -/
  | letters (count : Nat)
  /-- The rest of an attribute with this many brackets open. -/
  | attribute (depth : Nat)

/-- Whether a gap holds nothing but blanks, attributes and class modifiers. -/
def isTransparent : Gap → Text → Bool
  | .letters _, [] => true
  | .attribute _, [] => false
  | .letters (count + 1), _ :: rest => isTransparent (.letters count) rest
  | .letters 0, c :: rest =>
      if Text.isBlank c then isTransparent (.letters 0) rest
      else if c = '#' && rest.head? = some '[' then isTransparent (.attribute 0) rest
      else
        let word := (c :: rest).takeWhile Char.isAlpha
        if modifierWords.contains (Text.lower word) then isTransparent (.letters (word.length - 1)) rest
        else false
  | .attribute depth, c :: rest =>
      if c = '[' then isTransparent (.attribute (depth + 1)) rest
      else if c = ']' then
        if depth ≤ 1 then isTransparent (.letters 0) rest else isTransparent (.attribute (depth - 1)) rest
      else isTransparent (.attribute depth) rest

/-- The last doc comment before a keyword, if only a transparent gap lies between. -/
def attachedComment? (comments : List DocComment) (lead : Text) : Option DocComment := do
  let comment ← comments.reverse.find? fun comment => comment.stop ≤ Text.byteLength lead
  if isTransparent (.letters 0) (Text.dropBytes comment.stop lead) then some comment else none

def outline (source className : Text) : Except OutlineError Outline := do
  let name := ClassName.qualified className
  let expected := ClassName.enclosing name
  let declaration ← match findDeclaration? (ClassName.short name) [] 0 (mask .code source) with
    | some declaration => .ok declaration
    | none => .error (.noDeclaration name)
  let found := namespaceOf declaration.before
  if !Text.sameName found expected then
    .error (.otherNamespace (ClassName.short name) found expected)
  match Text.splitFirst? ['\x7b'] declaration.after with
  | none => .error (.noBody name)
  | some (head, tail) =>
      let parent := match declaration.kind, parentName? none head with
        | .plain, some parent => some (resolve found (importsOf declaration.before) parent)
        | _, _ => none
      let members := memberNames (bodyOf 0 tail)
      return {
        kind := declaration.kind
        isAbstract := declaration.isAbstract
        parent
        properties := members.properties
        methods := members.methods
        docComment := attachedComment? (docComments 0 .code source) declaration.lead }

end MemberDoc.Source
