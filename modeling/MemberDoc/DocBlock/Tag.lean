import MemberDoc.Text.Identifier

set_option autoImplicit false

/-! Tags of a doc block. A tag has a name and the lines of its body, in which blanks are
collapsed; what it describes is read off its name and its first line. -/

namespace MemberDoc

/-- What a tag describes. Property and method tags that name nothing describe something else. -/
inductive TagKind where
  | property (name : Text)
  | method (name : Text) (isStatic : Bool)
  | other
  deriving DecidableEq

structure Tag where
  name : Text
  body : List Text
  deriving DecidableEq

namespace Tag

/-- A tag name ends at a blank or an opening parenthesis. -/
def isNamePart (c : Char) : Bool :=
  !Text.isBlank c && c != '('

/-- Read a tag from its source, in which all lines but the first are continuations. -/
def parse? (source : Text) : Option Tag :=
  match Text.trim source with
  | '@' :: rest =>
      match rest.takeWhile isNamePart with
      | [] => none
      | name =>
          let lines := Text.lines (rest.dropWhile isNamePart)
          some ⟨name, (lines.map Text.collapse).filter (· ≠ [])⟩
  | _ => none

/-- The text of a tag. A body that starts with a parenthesis follows the name directly. -/
def render (tag : Tag) : Text :=
  '@' :: tag.name ++
    match tag.body with
    | [] => []
    | ('(' :: first) :: rest => Text.joinWith ['\n'] (('(' :: first) :: rest)
    | lines => ' ' :: Text.joinWith ['\n'] lines

/-- The name in a word such as `$name`, `&$name` or `...$name`. -/
def variableOf? (word : Text) : Option Text :=
  let bare := match word with
    | '&' :: rest => rest
    | '.' :: '.' :: '.' :: rest => rest
    | _ => word
  match bare with
  | '$' :: rest => (Text.name? rest).map Prod.fst
  | _ => none

def opensBracket (c : Char) : Bool :=
  c == '<' || c == '\x7b' || c == '['

def closesBracket (c : Char) : Bool :=
  c == '>' || c == '\x7d' || c == ']'

/-- The text before the first opening parenthesis that stands outside all other brackets. -/
def headOf? (depth : Nat) : Text → Option Text
  | [] => none
  | c :: rest =>
      if opensBracket c then (headOf? (depth + 1) rest).map (c :: ·)
      else if closesBracket c then (headOf? (depth - 1) rest).map (c :: ·)
      else if c = '(' ∧ depth = 0 then some []
      else (headOf? depth rest).map (c :: ·)

def lastWord (text : Text) : Text :=
  match Text.splitLast? ' ' text with
  | some (_, word) => word
  | none => text

/-- The method named by a line such as `static array<int, string> name(arguments)`. -/
def methodOf? (line : Text) : Option (Text × Bool) := do
  let (signature, isStatic) := match Text.after? "static ".toList line with
    | some rest => (Text.trimStart rest, true)
    | none => (line, false)
  let name := lastWord (Text.trimEnd (← headOf? 0 signature))
  if Text.isIdentifier name then some (name, isStatic) else none

def firstLine (tag : Tag) : Text :=
  tag.body.head?.getD []

def isPropertyName (name : Text) : Bool :=
  name == "property".toList || name == "property-read".toList || name == "property-write".toList

def kind (tag : Tag) : TagKind :=
  if isPropertyName tag.name then
    match (Text.splitOn ' ' tag.firstLine).findSome? variableOf? with
    | some name => .property name
    | none => .other
  else if tag.name = "method".toList then
    match methodOf? tag.firstLine with
    | some (name, isStatic) => .method name isStatic
    | none => .other
  else .other

def isStaticMethod (tag : Tag) : Bool :=
  match tag.kind with
  | .method _ isStatic => isStatic
  | _ => false

end Tag
end MemberDoc
