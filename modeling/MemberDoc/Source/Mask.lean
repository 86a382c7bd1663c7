import MemberDoc.Text.Basic

set_option autoImplicit false

/-! Masking of class sources. Comments and the insides of strings become spaces, one for each
byte, and line feeds stay, so that a place in the mask is the same place in the source. -/

namespace MemberDoc.Source

/-- What the next character belongs to. -/
inductive Mode where
  | code
  | block
  | line
  | string (quote : Char)
  deriving DecidableEq

def isQuote (c : Char) : Bool :=
  c == '\x22' || c == '\x27'

def blankOut (c : Char) : Text :=
  if c = '\n' then ['\n'] else List.replicate c.utf8Size ' '

/-- The mask of a text that starts in a given mode. A backslash in a string hides the next
character, and a number sign before a bracket opens an attribute and not a comment. -/
def mask : Mode → Text → Text
  | _, [] => []
  | .code, '/' :: '*' :: rest => ' ' :: ' ' :: mask .block rest
  | .code, '/' :: '/' :: rest => ' ' :: ' ' :: mask .line rest
  | .code, '#' :: '[' :: rest => '#' :: '[' :: mask .code rest
  | .code, '#' :: rest => ' ' :: mask .line rest
  | .code, c :: rest => c :: mask (if isQuote c then .string c else .code) rest
  | .block, '*' :: '/' :: rest => ' ' :: ' ' :: mask .code rest
  | .block, c :: rest => blankOut c ++ mask .block rest
  | .line, '\n' :: rest => '\n' :: mask .code rest
  | .line, c :: rest => blankOut c ++ mask .line rest
  | .string quote, '\\' :: c :: rest => ' ' :: blankOut c ++ mask (.string quote) rest
  | .string quote, c :: rest =>
      if c = quote then c :: mask .code rest else blankOut c ++ mask (.string quote) rest

/-- A doc comment and the byte at which it starts. -/
structure DocComment where
  start : Nat
  text : Text
  deriving DecidableEq

def DocComment.stop (comment : DocComment) : Nat :=
  comment.start + Text.byteLength comment.text

/-- The doc comment of which only the two opening characters have been read: it goes on with an
asterisk that does not close it, and it is closed. -/
def docCommentText? (rest : Text) : Option Text :=
  match Text.splitFirst? ['*', '/'] rest with
  | some ('*' :: inner, _) => some (['/', '*', '*'] ++ inner ++ ['*', '/'])
  | _ => none

/-- The doc comments of a text that starts at a given byte in a given mode. -/
def docComments : Nat → Mode → Text → List DocComment
  | _, _, [] => []
  | offset, .code, '/' :: '*' :: rest =>
      ((docCommentText? rest).map (DocComment.mk offset)).toList ++ docComments (offset + 2) .block rest
  | offset, .code, '/' :: '/' :: rest => docComments (offset + 2) .line rest
  | offset, .code, '#' :: '[' :: rest => docComments (offset + 2) .code rest
  | offset, .code, '#' :: rest => docComments (offset + 1) .line rest
  | offset, .code, c :: rest =>
      docComments (offset + c.utf8Size) (if isQuote c then .string c else .code) rest
  | offset, .block, '*' :: '/' :: rest => docComments (offset + 2) .code rest
  | offset, .block, c :: rest => docComments (offset + c.utf8Size) .block rest
  | offset, .line, '\n' :: rest => docComments (offset + 1) .code rest
  | offset, .line, c :: rest => docComments (offset + c.utf8Size) .line rest
  | offset, .string quote, '\\' :: c :: rest =>
      docComments (offset + 1 + c.utf8Size) (.string quote) rest
  | offset, .string quote, c :: rest =>
      docComments (offset + c.utf8Size) (if c = quote then .code else .string quote) rest

end MemberDoc.Source
