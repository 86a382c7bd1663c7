import MemberDoc.Text.Basic

set_option autoImplicit false

/-! Class names. A qualified name starts with exactly one backslash; names are the same class
when their qualified names agree up to case. -/

namespace MemberDoc.ClassName

def qualified (name : Text) : Text :=
  '\\' :: (Text.trim name).dropWhile (· == '\\')

def short (name : Text) : Text :=
  match Text.splitLast? '\\' name with
  | some (_, segment) => segment
  | none => name

/-- The namespace of a name, without backslashes around it. -/
def enclosing (name : Text) : Text :=
  match Text.splitLast? '\\' (name.dropWhile (· == '\\')) with
  | some (path, _) => path
  | none => []

/-- What identifies a class, whichever way its name is spelled. -/
def key (name : Text) : Text :=
  Text.lower (qualified name)

end MemberDoc.ClassName
