import MemberDoc.Update

set_option autoImplicit false

/-! The ways in which an update can go, each with what led to it and with all that it leaves behind. -/

namespace MemberDoc.Updater

def collected (updater : Updater) (registry : Registry) (snapshot : Snapshot) : Registry :=
  updater.contributors.foldl (fun registry contributor => registry.addAll (contributor snapshot)) registry

def wanted (updater : Updater) (registry : Registry) (snapshot : Snapshot) : Text :=
  contents updater.options (updater.collected registry snapshot) snapshot

def loading (updater : Updater) : Notice :=
  .loading updater.label updater.qualifiedName

/-- A run that goes in one of the six ways. -/
inductive Course (updater : Updater) (registry : Registry) (tree : Tree) : Run → Prop where
  | failed (cause : ReflectError) (reflected : updater.reflector tree updater.qualifiedName = .error cause) :
      Course updater registry tree ⟨.error cause, registry, tree, [], none⟩
  | skipped (snapshot : Snapshot) (reflected : updater.reflector tree updater.qualifiedName = .ok snapshot)
      (closed : snapshot.instantiable = false) :
      Course updater registry tree ⟨.ok .skipped, registry, tree, [], none⟩
  | unchanged (snapshot : Snapshot) (reflected : updater.reflector tree updater.qualifiedName = .ok snapshot)
      (ready : snapshot.instantiable = true) (same : updater.wanted registry snapshot = snapshot.source) :
      Course updater registry tree
        ⟨.ok (.unchanged snapshot.path), updater.collected registry snapshot, tree, [updater.loading], some snapshot⟩
  | pending (snapshot : Snapshot) (reflected : updater.reflector tree updater.qualifiedName = .ok snapshot)
      (ready : snapshot.instantiable = true) (differs : updater.wanted registry snapshot ≠ snapshot.source)
      (dry : updater.options.dryRun = true) :
      Course updater registry tree
        ⟨.ok (.pending snapshot.path (updater.wanted registry snapshot)), updater.collected registry snapshot, tree,
          [updater.loading], some snapshot⟩
  | written (snapshot : Snapshot) (after : Tree)
      (reflected : updater.reflector tree updater.qualifiedName = .ok snapshot)
      (ready : snapshot.instantiable = true) (differs : updater.wanted registry snapshot ≠ snapshot.source)
      (wet : updater.options.dryRun = false)
      (stored : tree.write snapshot.path (updater.wanted registry snapshot) = .ok after) :
      Course updater registry tree
        ⟨.ok (.written snapshot.path), updater.collected registry snapshot, after,
          [updater.loading, .wrote snapshot.path], some snapshot⟩
  | writeFailed (snapshot : Snapshot) (reason : AccessError)
      (reflected : updater.reflector tree updater.qualifiedName = .ok snapshot)
      (ready : snapshot.instantiable = true) (differs : updater.wanted registry snapshot ≠ snapshot.source)
      (wet : updater.options.dryRun = false)
      (refused : tree.write snapshot.path (updater.wanted registry snapshot) = .error reason) :
      Course updater registry tree
        ⟨.ok (.writeFailed snapshot.path reason), updater.collected registry snapshot, tree, [updater.loading],
          some snapshot⟩

theorem course_run (updater : Updater) (registry : Registry) (tree : Tree) :
    Course updater registry tree (updater.run registry tree) := by
  unfold run
  cases reflected : updater.reflector tree updater.qualifiedName with
  | error cause => exact .failed cause reflected
  | ok snapshot =>
      dsimp only
      cases ready : snapshot.instantiable with
      | false => exact .skipped snapshot reflected ready
      | true =>
          rw [if_neg (by decide)]
          split
          · rename_i same
            exact .unchanged snapshot reflected ready same
          · rename_i differs
            cases dry : updater.options.dryRun with
            | true => exact .pending snapshot reflected ready differs dry
            | false =>
                rw [if_neg (by decide)]
                split
                · rename_i after stored
                  exact .written snapshot after reflected ready differs dry stored
                · rename_i reason refused
                  exact .writeFailed snapshot reason reflected ready differs dry refused

end MemberDoc.Updater
