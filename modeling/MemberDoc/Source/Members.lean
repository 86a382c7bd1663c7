import MemberDoc.Text.Identifier
import MemberDoc.Text.WordChar

set_option autoImplicit false

/-! The members of a masked class body. Code inside braces is passed over; what remains falls
into statements, each of which declares a method, properties or nothing. -/

namespace MemberDoc.Source

/-- The body behind an opening brace, up to the brace that closes it or to the end. The depth
counts the braces that are open inside the body. -/
def bodyOf (depth : Nat) : Text → Text
  | [] => []
  | c :: rest =>
      if c = '\x7b' then c :: bodyOf (depth + 1) rest
      else if c = '\x7d' then
        match depth with
        | 0 => []
        | outer + 1 => c :: bodyOf outer rest
      else c :: bodyOf depth rest

/-- The statements of a body, without what stands inside braces. A statement ends at a semicolon
or an opening brace; the last one ends with the body. -/
def statements : Nat → Text → List Text
  | _, [] => [[]]
  | 0, c :: rest =>
      if c = '\x7b' then [] :: statements 1 rest
      else if c = '\x7d' then statements 0 rest
      else if c = ';' then [] :: statements 0 rest
      else Text.consHead c (statements 0 rest)
  | depth + 1, c :: rest =>
      if c = '\x7b' then statements (depth + 2) rest
      else if c = '\x7d' then statements depth rest
      else statements (depth + 1) rest

/-- An attribute that is being passed over: where it starts and how many brackets are open in it. -/
structure OpenAttribute where
  start : Text
  depth : Nat

/-- A text without leading blanks and attributes. An attribute that is never closed stays. -/
def stripAttributes (pending : Option OpenAttribute) : Text → Text
  | [] => (pending.map OpenAttribute.start).getD []
  | c :: rest =>
      match pending with
      | none =>
          if Text.isBlank c then stripAttributes none rest
          else if c = '#' && rest.head? = some '[' then stripAttributes (some ⟨c :: rest, 0⟩) rest
          else c :: rest
      | some ⟨start, depth⟩ =>
          if c = '[' then stripAttributes (some ⟨start, depth + 1⟩) rest
          else if c = ']' then
            if depth ≤ 1 then stripAttributes none rest
            else stripAttributes (some ⟨start, depth - 1⟩) rest
          else stripAttributes (some ⟨start, depth⟩) rest

/-- The name in `function &name(` at the start of a text, and what follows the parenthesis. -/
def functionAt? (text : Text) : Option (Text × Text) := do
  match ← Text.afterKeyword? "function".toList text with
  | [] => none
  | c :: rest =>
      if !Text.isBlank c then none
      let found ← match Text.trimStart rest with
        | '&' :: bare => Text.lateName? bare
        | _ => Text.lateName? rest
      match Text.trimStart found.after with
      | '(' :: after => some (found.name, after)
      | _ => none

/-- The first function head in a text; the character before the text is given. -/
def function? (previous : Option Char) : Text → Option (Text × Text)
  | [] => none
  | c :: rest =>
      match if Text.startsWord previous then functionAt? (c :: rest) else none with
      | some found => some found
      | none => function? (some c) rest

def hasConst (previous : Option Char) : Text → Bool
  | [] => false
  | c :: rest =>
      (Text.startsWord previous &&
        match Text.afterKeyword? "const".toList (c :: rest) with
        | some behind => Text.endsWord behind
        | none => false) ||
      hasConst (some c) rest

def startsWithWord (words : List Text) (text : Text) : Bool :=
  words.any fun word =>
    match Text.afterKeyword? word text with
    | some behind => Text.endsWord behind
    | none => false

def promotionWords : List Text :=
  ["public".toList, "protected".toList, "private".toList, "readonly".toList]

def propertyWords : List Text :=
  promotionWords ++ ["var".toList, "static".toList]

def parameters (depth : Nat) : Text → List Text
  | [] => [[]]
  | c :: rest =>
      if c = '(' || c = '[' then Text.consHead c (parameters (depth + 1) rest)
      else if c = ')' || c = ']' then
        match depth with
        | 0 => [[]]
        | outer + 1 => Text.consHead c (parameters outer rest)
      else if c = ',' && depth = 0 then [] :: parameters 0 rest
      else Text.consHead c (parameters depth rest)

def promoted? (parameter : Text) : Option Text :=
  let bare := stripAttributes none parameter
  if startsWithWord promotionWords bare then Text.dollarName? bare else none

def promotedParameters (text : Text) : List Text :=
  (parameters 0 text).filterMap promoted?

/-- Names of properties and methods in order of appearance, each once. -/
structure MemberNames where
  properties : List Text
  methods : List Text
  deriving DecidableEq

def MemberNames.addStatement (names : MemberNames) (statement : Text) : MemberNames :=
  let bare := stripAttributes none statement
  match function? none bare with
  | some (name, after) =>
      let own := if Text.sameName name "__construct".toList then promotedParameters after else []
      ⟨own.foldl Text.pushNew names.properties, Text.pushNew names.methods name⟩
  | none =>
      if startsWithWord propertyWords bare && !hasConst none bare then
        { names with properties := (Text.dollarNames bare).foldl Text.pushNew names.properties }
      else names

def memberNames (body : Text) : MemberNames :=
  (statements 0 body).foldl MemberNames.addStatement ⟨[], []⟩

end MemberDoc.Source
