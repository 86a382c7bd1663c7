import MemberDoc.Text.Basic

set_option autoImplicit false

/-! Paths as they are written. Two paths are the same when they agree after leaving out single
dots and repeated or trailing separators; double dots are kept. -/

namespace MemberDoc

structure Path where
  text : Text
  deriving DecidableEq

namespace Path

def isAbsolute (path : Path) : Bool :=
  path.text.head? = some '/'

/-- A path below another one; an absolute path replaces it. -/
def join (base : Path) (part : Text) : Path :=
  if part.head? = some '/' then ⟨part⟩
  else if base.text = [] || base.text.getLast? = some '/' then ⟨base.text ++ part⟩
  else ⟨base.text ++ '/' :: part⟩

/-- A piece between separators that leads nowhere. -/
def isRedundant (segment : Text) : Bool :=
  segment = [] || segment = ['.']

/-- The pieces of a path that count. A dot counts only as the first piece of a relative path. -/
def components (path : Path) : List Text :=
  match Text.splitOn '/' path.text with
  | [] => []
  | first :: rest =>
      (if first = [] then [] else [first]) ++ rest.filter fun segment => !isRedundant segment

def normal (path : Path) : Path :=
  let text := Text.joinWith ['/'] path.components
  ⟨if path.isAbsolute then '/' :: text else text⟩

def same (left right : Path) : Bool :=
  left.isAbsolute == right.isAbsolute && left.components == right.components

def dropTrailing (segments : List Text) : List Text :=
  (segments.reverse.dropWhile isRedundant).reverse

/-- A path without its last component and the redundant pieces before that. -/
def parent? (path : Path) : Option Path :=
  match Text.splitOn '/' path.text with
  | [] => none
  | first :: rest =>
      match dropTrailing rest with
      | [] => if first = [] then none else some ⟨[]⟩
      | kept =>
          match dropTrailing kept.dropLast with
          | [] => some ⟨if first = [] then ['/'] else first⟩
          | rest => some ⟨Text.joinWith ['/'] (first :: rest)⟩

end Path
end MemberDoc
