import MemberDoc.CommandLine.Run
import MemberDoc.Proofs.TargetGroups
import MemberDoc.Proofs.UpdateCourse

set_option autoImplicit false

/-! A dry run beside the run that writes. Both see the same tree up to the first document that is out of date,
which the one announces and the other tries to write. Behind that document their results may differ, but by then
it is known that there is something to do. -/

namespace MemberDoc

namespace Updater

/-- The result of a class that is skipped, up to date or in error: there is nothing to write. -/
def isSettled : Except ReflectError Outcome → Bool
  | .error _ => true
  | .ok .skipped => true
  | .ok (.unchanged _) => true
  | .ok _ => false

def isPending : Except ReflectError Outcome → Bool
  | .ok (.pending _ _) => true
  | _ => false

def isWrite : Except ReflectError Outcome → Bool
  | .ok (.written _) => true
  | .ok (.writeFailed _ _) => true
  | _ => false

theorem isSettled_iff (result : Except ReflectError Outcome) :
    isSettled result = true ↔ isPending result = false ∧ isWrite result = false := by
  cases result with
  | error cause => simp [isSettled, isPending, isWrite]
  | ok outcome => cases outcome <;> simp [isSettled, isPending, isWrite]

def withDryRun (updater : Updater) (dryRun : Bool) : Updater :=
  { updater with options := { updater.options with dryRun } }

def attempt (tree : Tree) (path : Path) (text : Text) : Outcome :=
  match tree.write path text with
  | .ok _ => .written path
  | .error reason => .writeFailed path reason

private theorem isWrite_attempt (tree : Tree) (path : Path) (text : Text) :
    isWrite (.ok (attempt tree path text)) = true := by
  unfold attempt
  split <;> rfl

/-- How a dry run on a tree compares with the run that writes: there is nothing to write and they are the same, or
the text that the one announces is what the other tries to write. -/
inductive Rehearses (tree : Tree) (dry wet : Run) : Prop where
  | settled (nothing : isSettled dry.result = true) (same : wet = dry)
  | apart (path : Path) (text : Text) (announced : dry.result = .ok (.pending path text))
      (reported : wet.result = .ok (attempt tree path text))

variable (updater : Updater) (registry : Registry) (tree : Tree)

theorem run_dry : ((updater.withDryRun true).run registry tree).tree = tree ∧
    (isSettled ((updater.withDryRun true).run registry tree).result = true ∨
      ∃ path text, ((updater.withDryRun true).run registry tree).result = .ok (.pending path text)) := by
  have course := (updater.withDryRun true).course_run registry tree
  generalize (updater.withDryRun true).run registry tree = run at course ⊢
  cases course with
  | failed cause => exact ⟨rfl, .inl rfl⟩
  | skipped snapshot => exact ⟨rfl, .inl rfl⟩
  | unchanged snapshot => exact ⟨rfl, .inl rfl⟩
  | pending snapshot => exact ⟨rfl, .inr ⟨_, _, rfl⟩⟩
  | written snapshot after reflected ready differs wet => cases wet
  | writeFailed snapshot reason reflected ready differs wet => cases wet

/-- Whether there is something to write does not depend on whether it is written. -/
theorem rehearses_run :
    Rehearses tree ((updater.withDryRun true).run registry tree) ((updater.withDryRun false).run registry tree) := by
  have text (dryRun : Bool) (collected : Registry) (snapshot : Snapshot) :
      contents ⟨updater.options.reset, updater.options.overwrite, dryRun⟩ collected snapshot =
        contents updater.options collected snapshot := rfl
  simp only [run, withDryRun, qualifiedName, text, Bool.false_eq_true, if_false, if_true]
  cases updater.reflector tree (ClassName.qualified updater.className) with
  | error cause => exact .settled rfl rfl
  | ok snapshot =>
      dsimp only
      generalize updater.contributors.foldl _ registry = collected
      split
      · exact .settled rfl rfl
      · split
        · exact .settled rfl rfl
        · refine .apart snapshot.path (contents updater.options collected snapshot) rfl ?_
          unfold attempt
          cases tree.write snapshot.path (contents updater.options collected snapshot) <;> rfl

end Updater

namespace CommandLine

open Updater

theorem runTargets_cons (options : Options) (dryRun : Bool) (classes : ClassMap) (target : ClassTarget)
    (targets : List ClassTarget) (tree : Tree) :
    runTargets { options with dryRun } classes (target :: targets) tree =
      (⟨target, (((updaterOf options classes target).withDryRun dryRun).run .empty tree).result,
          (((updaterOf options classes target).withDryRun dryRun).run .empty tree).notices⟩ ::
        (runTargets { options with dryRun } classes targets
          (((updaterOf options classes target).withDryRun dryRun).run .empty tree).tree).1,
      (runTargets { options with dryRun } classes targets
        (((updaterOf options classes target).withDryRun dryRun).run .empty tree).tree).2) :=
  rfl

/-- The results of a dry run on a tree beside those of the run that writes, which ends with a given tree. They
are the same up to the first document that is out of date. -/
inductive Foretells (tree : Tree) : List TargetResult → List TargetResult → Tree → Prop where
  | done : Foretells tree [] [] tree
  | settled (item : TargetResult) (dry wet : List TargetResult) (last : Tree)
      (nothing : isSettled item.result = true) (rest : Foretells tree dry wet last) :
      Foretells tree (item :: dry) (item :: wet) last
  | apart (announced reported : TargetResult) (dry wet : List TargetResult) (last : Tree) (path : Path) (text : Text)
      (pending : announced.result = .ok (.pending path text)) (write : reported.result = .ok (attempt tree path text)) :
      Foretells tree (announced :: dry) (reported :: wet) last

private theorem foretells_runTargets (options : Options) (classes : ClassMap) (targets : List ClassTarget)
    (tree : Tree) :
    Foretells tree (runTargets { options with dryRun := true } classes targets tree).1
      (runTargets { options with dryRun := false } classes targets tree).1
      (runTargets { options with dryRun := false } classes targets tree).2 := by
  induction targets with
  | nil => exact .done
  | cons target targets ih =>
      have kept := ((updaterOf options classes target).run_dry .empty tree).1
      rw [runTargets_cons, runTargets_cons]
      cases (updaterOf options classes target).rehearses_run .empty tree with
      | settled nothing same =>
          rw [same, kept]
          exact .settled _ _ _ _ nothing ih
      | apart path text announced reported => exact .apart _ _ _ _ _ path text announced reported

theorem Foretells.any_eq {tree last : Tree} {dry wet : List TargetResult} (foretells : Foretells tree dry wet last) :
    dry.any (isPending ·.result) = wet.any (isWrite ·.result) := by
  induction foretells with
  | done => rfl
  | settled item dry wet last nothing rest ih =>
      obtain ⟨notPending, notWrite⟩ := (isSettled_iff item.result).mp nothing
      rw [List.any_cons, List.any_cons, notPending, notWrite, ih]
  | apart announced reported dry wet last path text pending write =>
      rw [List.any_cons, List.any_cons, pending, write, isWrite_attempt]
      rfl

private theorem Foretells.same {tree last : Tree} {dry wet : List TargetResult}
    (foretells : Foretells tree dry wet last) (nothing : dry.any (isPending ·.result) = false) :
    wet = dry ∧ last = tree := by
  induction foretells with
  | done => exact ⟨rfl, rfl⟩
  | settled item dry wet last calm rest ih =>
      rw [List.any_cons, Bool.or_eq_false_iff] at nothing
      obtain ⟨same, kept⟩ := ih nothing.2
      exact ⟨by rw [same], kept⟩
  | apart announced reported dry wet last path text pending write =>
      rw [List.any_cons, pending] at nothing
      cases nothing

private theorem runTargets_dry (options : Options) (classes : ClassMap) (targets : List ClassTarget) (tree : Tree) :
    (runTargets { options with dryRun := true } classes targets tree).2 = tree ∧
      (runTargets { options with dryRun := true } classes targets tree).1.any (isWrite ·.result) = false := by
  induction targets with
  | nil => exact ⟨rfl, rfl⟩
  | cons target targets ih =>
      obtain ⟨kept, result⟩ := (updaterOf options classes target).run_dry .empty tree
      rw [runTargets_cons, List.any_cons, kept, ih.2, Bool.or_false]
      refine ⟨ih.1, ?_⟩
      rcases result with nothing | ⟨path, text, announced⟩
      · exact ((isSettled_iff _).mp nothing).2
      · rw [announced]
        rfl

def isTrouble : Except ReflectError Outcome → Bool
  | .error _ => true
  | .ok (.writeFailed _ _) => true
  | .ok _ => false

private theorem Summary.counts_add (summary : Summary) (result : Except ReflectError Outcome) :
    (summary.add result).isApply = summary.isApply ∧
      (summary.add result).pending = summary.pending + (if isPending result then 1 else 0) ∧
      (summary.add result).errors + (summary.add result).failed =
        summary.errors + summary.failed + if isTrouble result then 1 else 0 := by
  cases result with
  | error cause => exact ⟨rfl, rfl, Nat.add_right_comm _ 1 _⟩
  | ok outcome => cases outcome <;> exact ⟨rfl, rfl, rfl⟩

private theorem Summary.counts_foldl (summary : Summary) (results : List (Except ReflectError Outcome)) :
    (results.foldl add summary).isApply = summary.isApply ∧
      (results.foldl add summary).pending = summary.pending + results.countP isPending ∧
      (results.foldl add summary).errors + (results.foldl add summary).failed =
        summary.errors + summary.failed + results.countP isTrouble := by
  induction results generalizing summary with
  | nil => exact ⟨rfl, rfl, rfl⟩
  | cons result results ih =>
      obtain ⟨mode, pending, trouble⟩ := ih (summary.add result)
      obtain ⟨sameMode, onePending, oneTrouble⟩ := summary.counts_add result
      rw [List.foldl_cons, List.countP_cons, List.countP_cons]
      exact ⟨mode.trans sameMode, by omega, by omega⟩

private theorem Summary.exitCode_ofResults (isApply : Bool) (results : List (Except ReflectError Outcome)) :
    (ofResults isApply results).exitCode =
      if results.any isTrouble then 2 else if !isApply && results.any isPending then 1 else 0 := by
  obtain ⟨mode, pending, trouble⟩ := Summary.counts_foldl (start isApply) results
  have counted (test : Except ReflectError Outcome → Bool) : 0 < results.countP test ↔ results.any test = true := by
    rw [List.countP_pos_iff, List.any_eq_true]
  have fails : (decide ((ofResults isApply results).errors > 0) || decide ((ofResults isApply results).failed > 0)) =
      results.any isTrouble := by
    rw [Bool.eq_iff_iff, Bool.or_eq_true, decide_eq_true_eq, decide_eq_true_eq, ← counted, ofResults]
    change _ = 0 + 0 + _ at trouble
    omega
  have waits : decide ((ofResults isApply results).pending > 0) = results.any isPending := by
    rw [Bool.eq_iff_iff, decide_eq_true_eq, ← counted, ofResults]
    change _ = 0 + _ at pending
    omega
  unfold exitCode
  rw [fails, waits, show (ofResults isApply results).isApply = isApply from mode]

def optionsOf (flags : List Flag) (config : Config) : Options where
  reset := flags.contains .reset || config.reset
  overwrite := flags.contains .overwrite || config.overwrite
  dryRun := !flags.contains .apply

theorem optionsOf_dry {flags : List Flag} (dry : Flag.apply ∉ flags) (config : Config) :
    optionsOf flags config = { optionsOf flags config with dryRun := true } := by
  simp [optionsOf, dry]

def updates (flags : List Flag) (call : Call) (loaded : Loaded) (tree : Tree) : List TargetResult × Tree :=
  runTargets (optionsOf flags loaded.config) (loaded.config.classMap (loaded.base call.folder))
    (TargetGroup.schedule (loaded.config.classMap (loaded.base call.folder)) loaded.config.classes) tree

/-- The results that a call of `generate` reports. Nothing is updated if the configuration cannot be loaded. -/
def reports (flags : List Flag) (call : Call) (tree : Tree) : List TargetResult :=
  match Config.load tree call.folder with
  | .error _ => []
  | .ok loaded => (updates flags call loaded tree).1

theorem runGenerate_loaded (flags : List Flag) (call : Call) (tree : Tree) (loaded : Loaded)
    (known : Config.load tree call.folder = .ok loaded) :
    (runGenerate flags call tree).exitCode =
        (Summary.ofResults (flags.contains .apply) ((reports flags call tree).map TargetResult.result)).exitCode ∧
      (runGenerate flags call tree).tree = (updates flags call loaded tree).2 ∧
      reports flags call tree = (updates flags call loaded tree).1 := by
  unfold reports runGenerate
  rw [known]
  exact ⟨rfl, rfl, rfl⟩

theorem runGenerate_unloaded (flags : List Flag) (call : Call) (tree : Tree) (cause : LoadError)
    (failed : Config.load tree call.folder = .error cause) :
    (runGenerate flags call tree).exitCode = 2 ∧ (runGenerate flags call tree).tree = tree ∧
      reports flags call tree = [] := by
  unfold reports runGenerate
  rw [failed]
  exact ⟨rfl, rfl, rfl⟩

private theorem foretells_reports (flags : List Flag) (call : Call) (tree : Tree) (dry : Flag.apply ∉ flags) :
    Foretells tree (reports flags call tree) (reports (.apply :: flags) call tree)
      (runGenerate (.apply :: flags) call tree).tree := by
  cases known : Config.load tree call.folder with
  | error cause =>
      rw [(runGenerate_unloaded _ call tree cause known).2.2, (runGenerate_unloaded _ call tree cause known).2.2,
        (runGenerate_unloaded _ call tree cause known).2.1]
      exact .done
  | ok loaded =>
      obtain ⟨_, _, dryResults⟩ := runGenerate_loaded flags call tree loaded known
      obtain ⟨_, kept, wetResults⟩ := runGenerate_loaded (.apply :: flags) call tree loaded known
      have writing : optionsOf (.apply :: flags) loaded.config =
          { optionsOf flags loaded.config with dryRun := false } := by
        simp [optionsOf]
      rw [dryResults, wetResults, kept, updates, updates, writing, optionsOf_dry dry]
      exact foretells_runTargets ..

theorem reports_dry (flags : List Flag) (call : Call) (tree : Tree) (dry : Flag.apply ∉ flags) :
    (runGenerate flags call tree).tree = tree ∧ (reports flags call tree).any (isWrite ·.result) = false := by
  cases known : Config.load tree call.folder with
  | error cause =>
      obtain ⟨_, kept, unreported⟩ := runGenerate_unloaded flags call tree cause known
      exact ⟨kept, by rw [unreported]; rfl⟩
  | ok loaded =>
      obtain ⟨_, kept, results⟩ := runGenerate_loaded flags call tree loaded known
      rw [kept, results, updates, optionsOf_dry dry]
      exact runTargets_dry ..

private theorem exitCode_dry (flags : List Flag) (call : Call) (tree : Tree) (dry : Flag.apply ∉ flags)
    (noError : ∀ item ∈ reports flags call tree, ∀ cause, item.result ≠ .error cause) :
    (runGenerate flags call tree).exitCode = 1 ↔ (reports flags call tree).any (isPending ·.result) = true := by
  cases known : Config.load tree call.folder with
  | error cause =>
      obtain ⟨code, _, unreported⟩ := runGenerate_unloaded flags call tree cause known
      rw [code, unreported]
      decide
  | ok loaded =>
      obtain ⟨code, _, _⟩ := runGenerate_loaded flags call tree loaded known
      have noTrouble : (reports flags call tree).any (isTrouble ·.result) = false := by
        rw [List.any_eq_false]
        intro item member
        have noWrite := List.any_eq_false.mp (reports_dry flags call tree dry).2 item member
        have fine := noError item member
        generalize item.result = result at noWrite fine
        cases result with
        | error cause => exact absurd rfl (fine cause)
        | ok outcome => cases outcome <;> simp_all [isTrouble, isWrite]
      have noApply : flags.contains .apply = false := by simpa using dry
      rw [code, Summary.exitCode_ofResults, noApply, List.any_map, List.any_map]
      change (if (reports flags call tree).any (isTrouble ·.result) = true then 2
        else if (!false && (reports flags call tree).any (isPending ·.result)) = true then 1 else 0) = 1 ↔ _
      rw [noTrouble]
      cases (reports flags call tree).any (isPending ·.result) <;> decide

/-- A dry run announces an update exactly if the run with `--apply` writes a document or fails to. If it announces
none, both report the same and no document changes; and without an error its exit code tells which is the case. -/
theorem dryRun_foretells_apply (flags : List Flag) (call : Call) (tree : Tree) (dry : Flag.apply ∉ flags) :
    ((∃ item ∈ reports flags call tree, isPending item.result = true) ↔
        ∃ item ∈ reports (.apply :: flags) call tree, isWrite item.result = true) ∧
      ((∀ item ∈ reports flags call tree, isPending item.result = false) →
        reports (.apply :: flags) call tree = reports flags call tree ∧
          (∀ item ∈ reports flags call tree, isSettled item.result = true) ∧
          (runGenerate (.apply :: flags) call tree).tree = tree) ∧
      ((∀ item ∈ reports flags call tree, ∀ cause, item.result ≠ .error cause) →
        ((runGenerate flags call tree).exitCode = 1 ↔
          ∃ item ∈ reports (.apply :: flags) call tree, isWrite item.result = true)) ∧
      (runGenerate flags call tree).tree = tree := by
  have foretells := foretells_reports flags call tree dry
  obtain ⟨kept, noWrite⟩ := reports_dry flags call tree dry
  refine ⟨?_, fun nothing => ?_, fun noError => ?_, kept⟩
  · rw [← List.any_eq_true, ← List.any_eq_true, foretells.any_eq]
  · have settled : (reports flags call tree).any (isPending ·.result) = false := by
      simpa [List.any_eq_false] using nothing
    obtain ⟨same, untouched⟩ := foretells.same settled
    refine ⟨same, fun item member => ?_, untouched⟩
    exact (isSettled_iff _).mpr ⟨nothing item member, by simpa using List.any_eq_false.mp noWrite item member⟩
  · rw [exitCode_dry flags call tree dry noError, foretells.any_eq, List.any_eq_true]

def heirSource : Text :=
  "<?php\n/**\n * Class \\B\n */\nclass B extends A\n\x7b\n\x7d\n".toList

def heirConfig : Text :=
  ("\x7b\"classes\":[\x7b\"class\":\"A\",\"file\":\"A.php\",\"declaredProperties\":[\x7b\"name\":\"x\"\x7d]\x7d," ++
    "\x7b\"class\":\"B\",\"file\":\"B.php\",\"properties\":[\x7b\"name\":\"x\"\x7d]\x7d]\x7d").toList

def heirTree : Tree :=
  ⟨[([Config.fileName], .document (.text heirConfig) true),
    (["A.php".toList], .document (.text "<?php\nclass A\n\x7b\n\x7d\n".toList) true),
    (["B.php".toList], .document (.text heirSource) true)]⟩

def heirCall : Call :=
  ⟨[], ⟨['/']⟩, []⟩

/-- The dry run announces both documents. The run with `--apply` writes the parent, and the property that the child
was to describe is inherited by then. -/
theorem dryRun_foretells_apply_heir :
    Flag.apply ∉ [Flag.verbose] ∧
      (reports [.verbose] heirCall heirTree).map (isPending ·.result) = [true, true] ∧
      (reports [.apply, .verbose] heirCall heirTree).map (isWrite ·.result) = [true, false] ∧
      (runGenerate [.verbose] heirCall heirTree).exitCode = 1 := by
  have announced : (reports [.verbose] heirCall heirTree).map (isPending ·.result) = [true, true] := by decide +kernel
  have written : (reports [.apply, .verbose] heirCall heirTree).map (isWrite ·.result) = [true, false] := by
    decide +kernel
  have rehearsed : Flag.apply ∉ [Flag.verbose] := by decide
  refine ⟨rehearsed, announced, written, ?_⟩
  apply ((dryRun_foretells_apply [.verbose] heirCall heirTree rehearsed).2.2.1 ?_).mpr
  · have one : true ∈ (reports [.apply, .verbose] heirCall heirTree).map (isWrite ·.result) := by
      rw [written]
      exact List.mem_cons_self
    exact List.mem_map.mp one
  · intro item member cause failed
    have here : isPending item.result ∈ (reports [.verbose] heirCall heirTree).map (isPending ·.result) :=
      List.mem_map_of_mem member
    rw [announced, failed] at here
    simp [isPending] at here

end CommandLine
end MemberDoc
