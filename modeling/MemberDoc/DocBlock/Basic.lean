import MemberDoc.DocBlock.Tag
import MemberDoc.Text.Quoted

set_option autoImplicit false

/-! Doc blocks: a summary and tags, read from a doc comment and written as one. Text between
the summary and the first tag is not part of a block. -/

namespace MemberDoc

structure DocBlock where
  summary : Text
  tags : List Tag
  deriving DecidableEq

structure NotDocComment where
  text : Text

/-- The message shows at most forty characters. -/
def NotDocComment.message (failure : NotDocComment) : Text :=
  "Not a doc comment: ".toList ++ Text.quoted (failure.text.take 40)

namespace DocBlock

def isDocComment (text : Text) : Bool :=
  5 ≤ text.length && Text.startsWith ['/', '*', '*'] text && Text.endsWith ['*', '/'] text

/-- A comment line without its leading asterisk, one space after that, and blanks around it. -/
def stripGutter (line : Text) : Text :=
  let line := match Text.trimStart line with
    | '*' :: rest => rest
    | line => line
  Text.trimEnd (match line with
    | ' ' :: rest => rest
    | line => line)

def startsTag : Text → Bool
  | '@' :: _ => true
  | _ => false

def isSummaryLine (line : Text) : Bool :=
  !line.isEmpty && !startsTag line

/-- The lines of each tag, behind lines that belong to none. Empty lines do not count. -/
def groupTags : List Text → List Text × List (List Text)
  | [] => ([], [])
  | line :: rest =>
      let (loose, groups) := groupTags rest
      if startsTag line then ([], (line :: loose) :: groups)
      else if line = [] then (loose, groups)
      else (line :: loose, groups)

def ofLines (lines : List Text) : DocBlock :=
  let lines := lines.dropWhile List.isEmpty
  let sources := (groupTags (lines.dropWhile isSummaryLine)).2.map (Text.joinWith ['\n'])
  ⟨Text.joinWith ['\n'] (lines.takeWhile isSummaryLine), sources.filterMap Tag.parse?⟩

def parse (text : Text) : Except NotDocComment DocBlock :=
  let text := Text.trim text
  if isDocComment text then
    .ok (ofLines ((Text.lines ((text.drop 3).take (text.length - 5))).map stripGutter))
  else .error ⟨text⟩

/-- The lines of a block, with an empty one between summary and tags. -/
def bodyLines (block : DocBlock) : List Text :=
  let summary := Text.lines block.summary
  let gap := if summary = [] ∨ block.tags = [] then [] else [[]]
  summary ++ gap ++ block.tags.flatMap fun tag => Text.lines tag.render

def commentLine (line : Text) : Text :=
  if line = [] then [' ', '*', '\n'] else [' ', '*', ' '] ++ line ++ ['\n']

def serialize (block : DocBlock) : Text :=
  ['/', '*', '*', '\n'] ++ block.bodyLines.flatMap commentLine ++ [' ', '*', '/']

end DocBlock
end MemberDoc
