import MemberDoc.ClassName
import MemberDoc.Text.Identifier
import MemberDoc.Text.WordChar

set_option autoImplicit false

/-! Class declarations in a masked source, and the namespace and imports in force before them. -/

namespace MemberDoc.Source

/-- Only a plain class has a parent and can be instantiated. -/
inductive ClassKind where
  | plain
  | interface
  | trait
  | enum
  deriving DecidableEq

/-- A declaration up to its name, between the text before it and the text after it. The gap
holds the blanks between keyword and name. -/
structure Declaration where
  before : Text
  modifiers : Text
  keyword : Text
  gap : Text
  name : Text
  after : Text
  deriving DecidableEq

def modifierWords : List Text :=
  ["abstract".toList, "final".toList, "readonly".toList]

def kindWords : List Text :=
  ["class".toList, "interface".toList, "trait".toList, "enum".toList]

def afterModifier? (text : Text) : Option Text := do
  let (_, rest) ← Text.keyword? modifierWords text
  Text.afterBlanks? rest

def skipModifiers : Nat → Text → Text
  | 0, text => text
  | fuel + 1, text =>
      match afterModifier? text with
      | some rest => skipModifiers fuel rest
      | none => text

/-- The class modifiers at the start of a text, with the blanks behind them, and the rest. -/
def splitModifiers (text : Text) : Text × Text :=
  match afterModifier? text with
  | none => ([], text)
  | some rest =>
      let start := skipModifiers rest.length rest
      (text.take (text.length - start.length), start)

def declarationAt? (text : Text) : Option Declaration := do
  let (modifiers, start) := splitModifiers text
  let (keyword, behind) ← Text.keyword? kindWords start
  match behind with
  | [] => none
  | c :: rest =>
      let found ← if Text.isBlank c then Text.lateName? rest else none
      return { before := [], modifiers, keyword, gap := c :: found.gap, name := found.name, after := found.after }

def Declaration.text (declaration : Declaration) : Text :=
  declaration.modifiers ++ declaration.keyword ++ declaration.gap ++ declaration.name

/-- Behind `::`, `->`, `$` or a backslash, a keyword is a name. The text is given backwards. -/
def isMemberAccess (reversed : Text) : Bool :=
  match reversed.dropWhile Text.isBlank with
  | [] => false
  | c :: _ => c == ':' || c == '$' || c == '>' || c == '\\'

/-- The first declaration of a name. The text read so far is given backwards; characters that
belong to a declaration of another name are passed over. -/
def findDeclaration? (wanted : Text) (reversed : Text) : Nat → Text → Option Declaration
  | _, [] => none
  | skip + 1, c :: rest => findDeclaration? wanted (c :: reversed) skip rest
  | 0, c :: rest =>
      match if Text.startsWord reversed.head? then declarationAt? (c :: rest) else none with
      | none => findDeclaration? wanted (c :: reversed) 0 rest
      | some declaration =>
          if Text.sameName declaration.name wanted && !isMemberAccess reversed then
            some { declaration with before := reversed.reverse }
          else findDeclaration? wanted (c :: reversed) (declaration.text.length - 1) rest

def Declaration.kind (declaration : Declaration) : ClassKind :=
  let keyword := Text.lower declaration.keyword
  if keyword = "interface".toList then .interface
  else if keyword = "trait".toList then .trait
  else if keyword = "enum".toList then .enum
  else .plain

def Declaration.isAbstract (declaration : Declaration) : Bool :=
  Text.contains "abstract".toList (Text.lower declaration.modifiers)

def Declaration.lead (declaration : Declaration) : Text :=
  declaration.before ++ declaration.modifiers

def qualifiedName? : Text → Option (Text × Text)
  | [] => none
  | c :: rest =>
      if Text.isLetterStart c then
        let isPart := fun c => Text.isWord c || c == '\\'
        some (c :: rest.takeWhile isPart, rest.dropWhile isPart)
      else none

/-- What a reader finds at the starts of lines, from left to right and without overlap. -/
def findAtLines {α : Type} (read? : Text → Option (α × Text)) : Nat → Bool → Text → List α
  | _, _, [] => []
  | skip + 1, _, c :: rest => findAtLines read? skip (c == '\n') rest
  | 0, atStart, c :: rest =>
      match if atStart then read? (c :: rest) else none with
      | some (found, after) => found :: findAtLines read? (rest.length - after.length) (c == '\n') rest
      | none => findAtLines read? 0 (c == '\n') rest

def namespaceAt? (text : Text) : Option (Text × Text) := do
  let rest ← Text.afterKeyword? "namespace".toList (Text.trimStart text)
  let (name, rest) ← qualifiedName? (← Text.afterBlanks? rest)
  match Text.trimStart rest with
  | c :: after => if c == ';' || c == '\x7b' then some (name, after) else none
  | [] => none

def namespaceOf (before : Text) : Text :=
  (findAtLines namespaceAt? 0 true before).getLast?.getD []

/-- An imported name and what it is called locally, in lower case. -/
structure Import where
  localName : Text
  name : Text
  deriving DecidableEq

def afterSemicolon? (text : Text) : Option Text :=
  match Text.trimStart text with
  | ';' :: after => some after
  | _ => none

/-- The name in ` as Name;`, and what follows. -/
def localNameAt? (text : Text) : Option (Text × Text) := do
  let rest ← Text.afterKeyword? "as".toList (← Text.afterBlanks? text)
  match ← Text.afterBlanks? rest with
  | [] => none
  | c :: rest =>
      if Text.isLetterStart c then
        let after ← afterSemicolon? (rest.dropWhile Text.isWord)
        return (c :: rest.takeWhile Text.isWord, after)
      else none

def importAt? (text : Text) : Option (Import × Text) := do
  let rest ← Text.afterBlanks? (← Text.afterKeyword? "use".toList (Text.trimStart text))
  let (name, rest) ← qualifiedName? (match rest with
    | '\\' :: bare => bare
    | _ => rest)
  match localNameAt? rest with
  | some (localName, after) => return (⟨Text.lower localName, name⟩, after)
  | none =>
      let after ← afterSemicolon? rest
      return (⟨Text.lower (ClassName.short name), name⟩, after)

def importsOf (before : Text) : List Import :=
  findAtLines importAt? 0 true before

/-- The qualified name that a name stands for under a namespace and imports. -/
def resolve (namespaceName : Text) (imports : List Import) (name : Text) : Text :=
  match name with
  | '\\' :: _ => ClassName.qualified name
  | _ =>
      let head := name.takeWhile (· ≠ '\\')
      match imports.find? fun item => Text.sameName item.localName head with
      | some item => ClassName.qualified (item.name ++ name.dropWhile (· ≠ '\\'))
      | none =>
          if namespaceName = [] then ClassName.qualified name
          else ClassName.qualified (namespaceName ++ ['\\'] ++ name)

/-- The first name behind `extends`; the character before the text is given. -/
def parentName? (previous : Option Char) : Text → Option Text
  | [] => none
  | c :: rest =>
      let found : Option Text := do
        if !Text.startsWord previous then none
        let behind ← Text.afterBlanks? (← Text.afterKeyword? "extends".toList (c :: rest))
        match behind with
        | '\\' :: bare => (qualifiedName? bare).map fun (name, _) => '\\' :: name
        | _ => (qualifiedName? behind).map Prod.fst
      found.or (parentName? (some c) rest)

end MemberDoc.Source
