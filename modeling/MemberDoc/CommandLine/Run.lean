import MemberDoc.CommandLine.Arguments
import MemberDoc.CommandLine.Report
import MemberDoc.Config.Discovery
import MemberDoc.Config.Grouping

set_option autoImplicit false

/-! A run of the program on a tree of documents. -/

namespace MemberDoc.CommandLine

structure Call where
  arguments : List Text
  folder : Path
  environment : Environment

structure Finish where
  exitCode : Nat
  output : Text
  errors : Text
  tree : Tree

/-- Whether colour is asked for where the output is no terminal. -/
def forcesColor (environment : Environment) : Bool :=
  match environment.lookup "CLICOLOR_FORCE".toList with
  | some value => value ≠ ['0']
  | none => false

/-- Reports are coloured only when colour is forced. -/
def paletteOf (environment : Environment) : Palette :=
  ⟨forcesColor environment⟩

/-- Help and usage errors lose their styles, and every other control sequence, unless colour is
forced and not refused as well. -/
def display (environment : Environment) (text : Text) : Text :=
  let refused := (environment.lookup "NO_COLOR".toList).getD []
  if forcesColor environment && refused = [] then text else Terminal.plain text

def updaterOf (options : Options) (classes : ClassMap) (target : ClassTarget) : Updater where
  className := target.className
  options := options
  reflector := classes.reflect
  label := "class".toList
  contributors := [fun _ => target.requests]

structure TargetResult where
  target : ClassTarget
  result : Except ReflectError Outcome
  notices : List Notice

def runTargets (options : Options) (classes : ClassMap) :
    List ClassTarget → Tree → List TargetResult × Tree
  | [], tree => ([], tree)
  | target :: rest, tree =>
      let run := (updaterOf options classes target).run .empty tree
      let (results, last) := runTargets options classes rest run.tree
      (⟨target, run.result, run.notices⟩ :: results, last)

/-- Progress goes to the output, and with `--verbose` also to the errors. -/
def progress (palette : Palette) (notices : List Notice) : Text :=
  notices.flatMap fun
    | .wrote path => line [palette.green successMark, palette.green (Notice.wrote path).message]
    | .loading _ _ => []

def details (palette : Palette) (notices : List Notice) : Text :=
  notices.flatMap fun
    | .loading label className => line [palette.dimmed (Notice.loading label className).message]
    | .wrote _ => []

def runGenerate (flags : List Flag) (call : Call) (tree : Tree) : Finish :=
  let palette := paletteOf call.environment
  match Config.load tree call.folder with
  | .error cause => ⟨2, [], line ["Error:".toList, cause.message], tree⟩
  | .ok loaded =>
      let verbose := flags.contains .verbose
      let isApply := flags.contains .apply
      let warning :=
        if loaded.path.isNone then
          line [palette.boldYellow "warning:".toList, "no".toList, Config.fileName, "found, run".toList,
            palette.cyan "vmdoc init".toList, "to create one".toList]
        else []
      let config := loaded.config
      let classes := config.classMap (loaded.base call.folder)
      let options : Options :=
        { reset := flags.contains .reset || config.reset
          overwrite := flags.contains .overwrite || config.overwrite
          dryRun := !isApply }
      let targets := (TargetGroup.ofTargets classes config.classes).flatMap TargetGroup.targets
      let (results, tree) := runTargets options classes targets tree
      let notices := results.flatMap TargetResult.notices
      let summary := Summary.ofResults isApply (results.map TargetResult.result)
      { exitCode := summary.exitCode
        output := progress palette notices ++
          (results.flatMap fun item => outcomeLines palette verbose item.target.className item.result) ++
          summary.render palette
        errors := warning ++ if verbose then details palette notices else []
        tree }

def runInit (call : Call) (tree : Tree) : Finish :=
  let palette := paletteOf call.environment
  let path := call.folder.join Config.fileName
  if tree.hasPath path then
    ⟨1, [], line ["Error:".toList, Config.fileName, "already exists".toList], tree⟩
  else match tree.write path Config.initialText with
    | .error cause => ⟨2, [], line ["Error:".toList, cause.message], tree⟩
    | .ok tree =>
        let created := line [palette.green successMark,
          palette.green ("Created ".toList ++ Config.fileName)]
        let hint := line ["List your classes under".toList, palette.cyan "\"classes\"".toList,
          "and run".toList, palette.cyan "vmdoc generate".toList ++ ['.']]
        ⟨0, created ++ hint, [], tree⟩

def run (call : Call) (tree : Tree) : Finish :=
  match parse call.environment call.arguments with
  | .error cause => ⟨2, [], display call.environment cause.text, tree⟩
  | .ok (.print text) => ⟨0, display call.environment text, [], tree⟩
  | .ok .init => runInit call tree
  | .ok (.generate flags) => runGenerate flags call tree

end MemberDoc.CommandLine
