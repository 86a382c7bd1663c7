import MemberDoc.CommandLine.Terminal
import MemberDoc.Update

set_option autoImplicit false

/-! The report of a run: a line for each class that needs attention, and a summary. -/

namespace MemberDoc.CommandLine

structure Palette where
  colored : Bool
  deriving DecidableEq

/-- A text in which every end of all styles is followed by a style. -/
def resumeStyle (code : Text) : Nat → Text → Text
  | 0, text => text
  | fuel + 1, text =>
      match Text.splitFirst? (escapeCode ['0']) text with
      | some (lead, tail) => lead ++ escapeCode ['0'] ++ code ++ resumeStyle code fuel tail
      | none => text

/-- A text with a style, which resumes where the text itself ends all styles. -/
def Palette.style (palette : Palette) (code : String) (text : Text) : Text :=
  if palette.colored then
    escapeCode code.toList ++ resumeStyle (escapeCode code.toList) text.length text ++ escapeCode ['0']
  else text

namespace Palette

def green (palette : Palette) : Text → Text :=
  palette.style "32"

def red (palette : Palette) : Text → Text :=
  palette.style "31"

def cyan (palette : Palette) : Text → Text :=
  palette.style "36"

def dimmed (palette : Palette) : Text → Text :=
  palette.style "2"

def bold (palette : Palette) : Text → Text :=
  palette.style "1"

def boldYellow (palette : Palette) : Text → Text :=
  palette.style "1;33"

def boldGreen (palette : Palette) : Text → Text :=
  palette.style "1;32"

def boldRed (palette : Palette) : Text → Text :=
  palette.style "1;31"

end Palette

def successMark : Text :=
  ['✓']

def failureMark : Text :=
  ['✘']

def line (pieces : List Text) : Text :=
  Text.joinWith [' '] pieces ++ ['\n']

/-- The result for one class. Written documents are announced when they are written. -/
def outcomeLines (palette : Palette) (verbose : Bool) (className : Text) :
    Except ReflectError Outcome → Text
  | .ok (.pending path contents) =>
      line [palette.boldYellow "Would update".toList, path.text, ['('] ++ className ++ [')']] ++
        if verbose then palette.dimmed contents ++ ['\n'] else []
  | .ok (.writeFailed path reason) =>
      line [palette.red failureMark,
        palette.red ("Failed to write ".toList ++ path.text ++ ": ".toList ++ reason.message)]
  | .ok .skipped =>
      if verbose then
        line [palette.dimmed ("Skipped ".toList ++ className ++ " (not instantiable)".toList)]
      else []
  | .ok (.unchanged path) =>
      if verbose then
        line [palette.dimmed ("Unchanged ".toList ++ path.text ++ " (".toList ++ className ++ [')'])]
      else []
  | .ok (.written _) => []
  | .error cause => line [palette.boldRed "error:".toList, className ++ [':'], cause.message]

structure Summary where
  total : Nat
  written : Nat
  pending : Nat
  skipped : Nat
  /-- Documents that could not be written. -/
  failed : Nat
  /-- Classes that could not be reflected. -/
  errors : Nat
  /-- Distinct documents that were or would be written. -/
  documents : List Path
  isApply : Bool
  deriving DecidableEq

namespace Summary

def start (isApply : Bool) : Summary :=
  ⟨0, 0, 0, 0, 0, 0, [], isApply⟩

def addDocument (documents : List Path) (path : Path) : List Path :=
  if documents.any (·.same path) then documents else documents ++ [path]

def add (summary : Summary) (result : Except ReflectError Outcome) : Summary :=
  let summary := { summary with total := summary.total + 1 }
  match result with
  | .ok .skipped => { summary with skipped := summary.skipped + 1 }
  | .ok (.unchanged _) => summary
  | .ok (.pending path _) =>
      { summary with
        pending := summary.pending + 1
        documents := addDocument summary.documents path }
  | .ok (.written path) =>
      { summary with
        written := summary.written + 1
        documents := addDocument summary.documents path }
  | .ok (.writeFailed _ _) => { summary with failed := summary.failed + 1 }
  | .error _ => { summary with errors := summary.errors + 1 }

def ofResults (isApply : Bool) (results : List (Except ReflectError Outcome)) : Summary :=
  results.foldl add (start isApply)

/-- Two for an error, one if a dry run found something to do, and else zero. -/
def exitCode (summary : Summary) : Nat :=
  if summary.errors > 0 || summary.failed > 0 then 2
  else if !summary.isApply && summary.pending > 0 then 1
  else 0

def classCount (count : Nat) (ending : String) : Text :=
  Text.ofNat count ++ ending.toList

def render (palette : Palette) (summary : Summary) : Text :=
  let documents := classCount summary.documents.length " file(s) for"
  let failures :=
    if summary.failed > 0 || summary.errors > 0 then
      line [palette.red failureMark,
        palette.red (classCount summary.errors " class(es) failed, " ++
          classCount summary.failed " write(s) failed")]
    else []
  let changes :=
    if summary.isApply then
      if summary.written > 0 then
        line [palette.boldGreen "Updated".toList, documents, classCount summary.written " class(es)"]
      else []
    else if summary.pending > 0 then
      line [palette.boldYellow "Would update".toList, documents,
        classCount summary.pending " class(es)."] ++
      line ["Run with".toList, palette.cyan "--apply".toList, "to write these changes.".toList]
    else []
  let upToDate :=
    if summary.written = 0 && summary.pending = 0 && summary.failed = 0 && summary.errors = 0 then
      line [palette.green successMark,
        palette.green ("Checked ".toList ++
          classCount summary.total (if summary.total = 1 then " class" else " classes") ++
          " - everything up to date".toList)]
    else []
  let skips :=
    if summary.skipped > 0 then
      line [palette.bold "note:".toList, classCount summary.skipped " class(es) skipped (abstract, interface, trait or enum)"]
    else []
  failures ++ changes ++ upToDate ++ skips

end Summary
end MemberDoc.CommandLine
