import MemberDoc.Text.Basic

set_option autoImplicit false

/-! Identifiers and keywords of class sources. An identifier may hold any character beyond
ASCII, blanks included, so where a blank and an identifier may both follow, the identifier
starts as late as it can. -/

namespace MemberDoc.Text

def isNameStart (c : Char) : Bool :=
  c.isAlpha || c == '_' || 0x80 ≤ c.toNat

def isNameChar (c : Char) : Bool :=
  isNameStart c || c.isDigit

def isIdentifier : Text → Bool
  | [] => false
  | c :: rest => isNameStart c && rest.all isNameChar

/-- The longest identifier at the start of a text, and what follows it. -/
def name? : Text → Option (Text × Text)
  | [] => none
  | c :: rest =>
      if isNameStart c then some (c :: rest.takeWhile isNameChar, rest.dropWhile isNameChar) else none

/-- Blanks, an identifier behind them and the text after it. -/
structure SpacedName where
  gap : Text
  name : Text
  after : Text

/-- Any number of blanks and then an identifier, which starts as late as it can. -/
def lateName? : Text → Option SpacedName
  | [] => none
  | c :: rest =>
      match if isBlank c then lateName? rest else none with
      | some found => some { found with gap := c :: found.gap }
      | none => (name? (c :: rest)).map fun (name, after) => ⟨[], name, after⟩

/-- Simple case folding as far as it reaches ASCII: the long s is an `s` and the Kelvin sign a `k`. -/
def foldCase (c : Char) : Char :=
  if c.toNat = 0x17F then 's' else if c.toNat = 0x212A then 'k' else c.toLower

/-- What follows a keyword, given in lower case and read in any case. -/
def afterKeyword? : Text → Text → Option Text
  | [], text => some text
  | _ :: _, [] => none
  | expected :: word, c :: rest => if foldCase c = expected then afterKeyword? word rest else none

/-- The first keyword of a list that stands at the start of a text, as written there. -/
def keyword? (keywords : List Text) (text : Text) : Option (Text × Text) :=
  keywords.findSome? fun word => (afterKeyword? word text).map fun rest => (text.take word.length, rest)

def afterBlanks? : Text → Option Text
  | [] => none
  | c :: rest => if isBlank c then some (trimStart rest) else none

/-- A letter `A` to `Z` in either case or an underscore, up to case folding. -/
def isLetterStart (c : Char) : Bool :=
  (foldCase c).isAlpha || c == '_'

def dollarName? : Text → Option Text
  | [] => none
  | c :: rest =>
      match if c = '$' then name? rest else none with
      | some (name, _) => some name
      | none => dollarName? rest

def dollarNames : Text → List Text
  | [] => []
  | c :: rest =>
      match if c = '$' then name? rest else none with
      | some (name, _) => name :: dollarNames rest
      | none => dollarNames rest

end MemberDoc.Text
