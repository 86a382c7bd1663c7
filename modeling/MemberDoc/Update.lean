import MemberDoc.ClassDoc
import MemberDoc.ClassMap
import MemberDoc.Insertion

set_option autoImplicit false

/-! One update of the document of a class: take a snapshot, collect members, compute the new
text, and write it if it differs. -/

namespace MemberDoc

inductive Outcome where
  /-- The class cannot be instantiated. -/
  | skipped
  | unchanged (path : Path)
  /-- The document would get this text. -/
  | pending (path : Path) (contents : Text)
  | written (path : Path)
  | writeFailed (path : Path) (reason : AccessError)
  deriving DecidableEq

def Outcome.path? : Outcome → Option Path
  | .skipped => none
  | .unchanged path => some path
  | .pending path _ => some path
  | .written path => some path
  | .writeFailed path _ => some path

inductive Notice where
  | loading (label className : Text)
  | wrote (path : Path)
  deriving DecidableEq

def Notice.message : Notice → Text
  | .loading label className => "Loading ".toList ++ label ++ " '".toList ++ className ++ "'".toList
  | .wrote path => "Written new doc block to ".toList ++ path.text

abbrev Reflector := Tree → Text → Except ReflectError Snapshot

abbrev Contributor := Snapshot → List Registry.Request

/-- An update to be run, possibly several times. -/
structure Updater where
  className : Text
  options : Options
  reflector : Reflector
  label : Text
  contributors : List Contributor

structure Run where
  result : Except ReflectError Outcome
  registry : Registry
  tree : Tree
  notices : List Notice
  /-- The snapshot that the contributors have seen. -/
  seen : Option Snapshot

namespace Updater

def qualifiedName (updater : Updater) : Text :=
  ClassName.qualified updater.className

def contents (options : Options) (registry : Registry) (snapshot : Snapshot) : Text :=
  Insertion.edit snapshot registry (ClassDoc.text snapshot registry options)

def run (updater : Updater) (registry : Registry) (tree : Tree) : Run :=
  match updater.reflector tree updater.qualifiedName with
  | .error cause => ⟨.error cause, registry, tree, [], none⟩
  | .ok snapshot =>
      if !snapshot.instantiable then ⟨.ok .skipped, registry, tree, [], none⟩
      else
        let loading := Notice.loading updater.label updater.qualifiedName
        let registry := updater.contributors.foldl
          (fun registry contributor => registry.addAll (contributor snapshot)) registry
        let text := contents updater.options registry snapshot
        let path := snapshot.path
        if text = snapshot.source then
          ⟨.ok (.unchanged path), registry, tree, [loading], some snapshot⟩
        else if updater.options.dryRun then
          ⟨.ok (.pending path text), registry, tree, [loading], some snapshot⟩
        else match tree.write path text with
          | .ok tree => ⟨.ok (.written path), registry, tree, [loading, .wrote path], some snapshot⟩
          | .error reason =>
              ⟨.ok (.writeFailed path reason), registry, tree, [loading], some snapshot⟩

end Updater
end MemberDoc
