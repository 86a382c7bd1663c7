set_option autoImplicit false

/-! Texts and the few ways this library cuts them: blanks, lines, words, and the first or
last occurrence of a piece. Every cut is by structural recursion, so that it can be computed
inside a proof. -/

namespace MemberDoc

abbrev Text := List Char

namespace Text

/-- The Unicode property White_Space. -/
def isBlank (c : Char) : Bool :=
  let code := c.toNat
  (9 ≤ code && code ≤ 13) || code == 0x20 || code == 0x85 || code == 0xA0 || code == 0x1680 ||
    (0x2000 ≤ code && code ≤ 0x200A) || code == 0x2028 || code == 0x2029 || code == 0x202F ||
    code == 0x205F || code == 0x3000

def trimStart (text : Text) : Text :=
  text.dropWhile isBlank

def trimEnd (text : Text) : Text :=
  (text.reverse.dropWhile isBlank).reverse

def trim (text : Text) : Text :=
  trimEnd (trimStart text)

def consHead (c : Char) : List Text → List Text
  | [] => [[c]]
  | head :: tail => (c :: head) :: tail

/-- The pieces between the occurrences of one character; there is always at least one. -/
def splitOn (separator : Char) : Text → List Text
  | [] => [[]]
  | c :: rest => if c = separator then [] :: splitOn separator rest else consHead c (splitOn separator rest)

/-- A line ends with a line feed or with a carriage return and a line feed. Nothing follows
the last line end, and a carriage return elsewhere is an ordinary character. -/
def lines : Text → List Text
  | [] => []
  | '\n' :: rest => [] :: lines rest
  | '\r' :: '\n' :: rest => [] :: lines rest
  | c :: rest => consHead c (lines rest)

/-- The maximal runs of characters that are not blank. -/
def words : Text → List Text
  | [] => []
  | c :: rest =>
      if isBlank c then words rest
      else match rest with
        | [] => [[c]]
        | next :: _ => if isBlank next then [c] :: words rest else consHead c (words rest)

def joinWith (separator : Text) (pieces : List Text) : Text :=
  separator.intercalate pieces

/-- Words separated by one space each, with no blank at either end. -/
def collapse (text : Text) : Text :=
  joinWith [' '] (words text)

def after? : Text → Text → Option Text
  | [], text => some text
  | _ :: _, [] => none
  | expected :: piece, c :: rest => if c = expected then after? piece rest else none

def startsWith (piece text : Text) : Bool :=
  (after? piece text).isSome

def endsWith (piece text : Text) : Bool :=
  startsWith piece.reverse text.reverse

/-- The texts around the first occurrence of a piece; the empty piece occurs at the start. -/
def splitFirst? (piece : Text) : Text → Option (Text × Text)
  | [] => if piece = [] then some ([], []) else none
  | c :: rest =>
      match after? piece (c :: rest) with
      | some tail => some ([], tail)
      | none => (splitFirst? piece rest).map fun (lead, tail) => (c :: lead, tail)

def contains (piece text : Text) : Bool :=
  (splitFirst? piece text).isSome

def splitLast? (mark : Char) : Text → Option (Text × Text)
  | [] => none
  | c :: rest =>
      match splitLast? mark rest with
      | some (lead, tail) => some (c :: lead, tail)
      | none => if c = mark then some ([], rest) else none

def replaceFirst (old new text : Text) : Text :=
  match splitFirst? old text with
  | some (lead, tail) => lead ++ new ++ tail
  | none => text

/-- Lower case for the letters `A` to `Z` only. -/
def lower (text : Text) : Text :=
  text.map Char.toLower

/-- Equality up to the case of the letters `A` to `Z`. -/
def sameName (left right : Text) : Bool :=
  lower left == lower right

/-- The order of texts by their characters, which is also the order of their bytes. -/
def isAtMost : Text → Text → Bool
  | [], _ => true
  | _ :: _, [] => false
  | left :: lefts, right :: rights =>
      if left = right then isAtMost lefts rights else left.toNat < right.toNat

def byteLength : Text → Nat
  | [] => 0
  | c :: rest => c.utf8Size + byteLength rest

def dropBytes : Nat → Text → Text
  | 0, text => text
  | _ + 1, [] => []
  | count + 1, c :: rest => dropBytes (count + 1 - c.utf8Size) rest

def ofNat (number : Nat) : Text :=
  Nat.toDigits 10 number

def ofInt : Int → Text
  | .ofNat number => ofNat number
  | .negSucc number => '-' :: ofNat (number + 1)

/-- Append to a list what it does not hold yet. -/
def pushNew (names : List Text) (name : Text) : List Text :=
  if names.contains name then names else names ++ [name]

end Text
end MemberDoc
