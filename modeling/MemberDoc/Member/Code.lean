import MemberDoc.Member.Basic

set_option autoImplicit false

/-! Source text of declared members, indented for a class body. -/

namespace MemberDoc

def indent : Text :=
  [' ', ' ', ' ', ' ']

/-- A doc comment above a member; without lines there is none. -/
def memberComment (lines : List Text) : Text :=
  if lines = [] then []
  else
    indent ++ "/**\n".toList ++ (lines.flatMap fun line => indent ++ " * ".toList ++ line ++ ['\n']) ++
      indent ++ " */\n".toList

def staticPart (isStatic : Bool) : Text :=
  if isStatic then " static".toList else []

/-- An empty default value counts as none. -/
def DeclaredProperty.code (property : DeclaredProperty) : Text :=
  let varLine := property.type.toList.map ("@var ".toList ++ ·)
  memberComment (Text.lines property.comment ++ varLine) ++
    indent ++ property.visibility.keyword ++ staticPart property.isStatic ++ " $".toList ++ property.name ++
    (match property.default with
      | some (c :: value) => " = ".toList ++ c :: value
      | _ => []) ++
    [';']

/-- A line of a method body; blank lines lose their blanks. -/
def bodyLine (line : Text) : Text :=
  if Text.trim line = [] then ['\n'] else indent ++ indent ++ line ++ ['\n']

def DeclaredMethod.code (method : DeclaredMethod) : Text :=
  memberComment (Text.lines method.comment) ++
    indent ++ method.visibility.keyword ++ staticPart method.isStatic ++ " function ".toList ++ method.name ++
    ['('] ++ Argument.signatures method.arguments ++ [')'] ++
    (match method.returns with
      | some type => " : ".toList ++ type
      | none => []) ++
    " \x7b\n".toList ++ (Text.lines method.body).flatMap bodyLine ++ indent ++ ['\x7d']

end MemberDoc
