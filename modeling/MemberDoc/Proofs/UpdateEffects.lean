import MemberDoc.Proofs.TreeWrites
import MemberDoc.Proofs.UpdateCourse

set_option autoImplicit false

/-! What updates do to the tree, to the registries and to those who listen. A session is any number of runs on any
number of registries, each on the tree that the runs before it have left. -/

namespace MemberDoc.Updater

def isRefused : Except ReflectError Outcome → Bool
  | .error _ => true
  | .ok .skipped => true
  | .ok _ => false

def writtenPath? : Except ReflectError Outcome → Option Path
  | .ok (.written path) => some path
  | _ => none

theorem writtenPath_of_refused (result : Except ReflectError Outcome) (refused : isRefused result = true) :
    writtenPath? result = none := by
  cases result with
  | error cause => rfl
  | ok outcome =>
      cases outcome with
      | skipped => rfl
      | unchanged | pending | written | writeFailed => cases refused

/-- What a run may do to a tree, to a registry and to those who listen. -/
structure Effects (updater : Updater) (registry : Registry) (tree : Tree) (run : Run) : Prop where
  idle : writtenPath? run.result = none → run.tree = tree
  writes : ∀ path, writtenPath? run.result = some path → ∃ snapshot place text,
    updater.reflector tree updater.qualifiedName = .ok snapshot ∧ path = snapshot.path ∧ text ≠ snapshot.source ∧
      tree.target path = .ok place ∧ run.tree.read path = .ok text ∧
      ∀ other, other ≠ place → run.tree.entry? other = tree.entry? other
  refused : isRefused run.result = true → run.registry = registry ∧ run.notices = []
  heard : isRefused run.result = false →
    run.notices = updater.loading :: (writtenPath? run.result).toList.map Notice.wrote

variable {updater : Updater} {registry : Registry} {tree : Tree}

private theorem effects_refused (result : Except ReflectError Outcome) (refused : isRefused result = true) :
    Effects updater registry tree ⟨result, registry, tree, [], none⟩ where
  idle _ := rfl
  writes path known := by
    rw [writtenPath_of_refused result refused] at known
    cases known
  refused _ := ⟨rfl, rfl⟩
  heard accepted := by
    rw [refused] at accepted
    cases accepted

private theorem effects_unwritten (result : Except ReflectError Outcome) (accepted : isRefused result = false)
    (unwritten : writtenPath? result = none) (grown : Registry) (seen : Option Snapshot) :
    Effects updater registry tree ⟨result, grown, tree, [updater.loading], seen⟩ where
  idle _ := rfl
  writes path known := by
    rw [unwritten] at known
    cases known
  refused isRefused := by
    rw [accepted] at isRefused
    cases isRefused
  heard _ := by rw [unwritten]; rfl

private theorem Course.effects {run : Run} (course : Course updater registry tree run) :
    Effects updater registry tree run := by
  cases course with
  | failed cause reflected => exact effects_refused _ rfl
  | skipped snapshot reflected closed => exact effects_refused _ rfl
  | unchanged snapshot reflected ready same => exact effects_unwritten _ rfl rfl _ _
  | pending snapshot reflected ready differs dry => exact effects_unwritten _ rfl rfl _ _
  | writeFailed snapshot reason reflected ready differs wet refused => exact effects_unwritten _ rfl rfl _ _
  | written snapshot after reflected ready differs wet stored =>
      obtain ⟨place, targeted, readBack, frame⟩ := tree.read_written after snapshot.path _ stored
      refine ⟨fun unwritten => ?_, fun path known => ?_, fun refused => ?_, fun _ => rfl⟩
      · cases unwritten
      · cases known
        exact ⟨snapshot, place, _, reflected, rfl, differs, targeted, readBack, frame⟩
      · cases refused

end MemberDoc.Updater

namespace MemberDoc

def Notice.isComment : Notice → Bool
  | .loading _ _ => true
  | .wrote _ => false

def Notice.writtenPath? : Notice → Option Path
  | .loading _ _ => none
  | .wrote path => some path

/-- A tree and the registries of the updates that are run on it. -/
structure Session where
  tree : Tree
  members : Nat → Registry

/-- What is done in a session: a member is requested for a registry, or an update is run with one. The contributors
are those of this one run, so they may depend on what was done before. -/
inductive Session.Action where
  | request (holder : Nat) (made : Registry.Request)
  | update (holder : Nat) (updater : Updater)

namespace Session

def keep (session : Session) (holder : Nat) (registry : Registry) : Session :=
  { session with members := fun other => if other = holder then registry else session.members other }

structure Turn where
  before : Session
  holder : Nat
  updater : Updater

namespace Turn

def run (turn : Turn) : Run :=
  turn.updater.run (turn.before.members turn.holder) turn.before.tree

def after (turn : Turn) : Session :=
  { turn.before.keep turn.holder turn.run.registry with tree := turn.run.tree }

def WritesTo (turn : Turn) (place : List Text) : Prop :=
  ∃ path, Updater.writtenPath? turn.run.result = some path ∧ turn.before.tree.target path = .ok place

end Turn

def next (session : Session) : Action → Session
  | .request holder made => session.keep holder ((session.members holder).add made)
  | .update holder updater => (Turn.mk session holder updater).after

def turns (session : Session) : List Action → List Turn
  | [] => []
  | .request holder made :: rest => turns (session.next (.request holder made)) rest
  | .update holder updater :: rest => ⟨session, holder, updater⟩ :: turns (session.next (.update holder updater)) rest

def finish (session : Session) (actions : List Action) : Session :=
  actions.foldl next session

def log (session : Session) (actions : List Action) : List Notice :=
  (session.turns actions).flatMap fun turn => turn.run.notices

namespace Turn

variable (turn : Turn)

theorem effects : turn.updater.Effects (turn.before.members turn.holder) turn.before.tree turn.run :=
  (Updater.course_run _ _ _).effects

theorem members_other (holder : Nat) (other : holder ≠ turn.holder) :
    turn.after.members holder = turn.before.members holder :=
  if_neg other

private theorem members_refused (refused : Updater.isRefused turn.run.result = true) :
    turn.after.members = turn.before.members := by
  funext holder
  by_cases own : holder = turn.holder
  · rw [own]
    change (if turn.holder = turn.holder then turn.run.registry else _) = _
    rw [if_pos rfl, (turn.effects.refused refused).1]
  · exact turn.members_other holder own

private theorem entry_after (place : List Text) (apart : ¬ turn.WritesTo place) :
    turn.after.tree.entry? place = turn.before.tree.entry? place := by
  change turn.run.tree.entry? place = _
  cases known : Updater.writtenPath? turn.run.result with
  | none => rw [turn.effects.idle known]
  | some path =>
      obtain ⟨snapshot, target, text, _, _, _, targeted, _, frame⟩ := turn.effects.writes path known
      apply frame
      rintro rfl
      exact apart ⟨path, known, targeted⟩

private theorem comments_told : (turn.run.notices.filter Notice.isComment).length =
    if Updater.isRefused turn.run.result then 0 else 1 := by
  cases refused : Updater.isRefused turn.run.result with
  | true =>
      rw [(turn.effects.refused refused).2]
      rfl
  | false =>
      rw [turn.effects.heard refused]
      cases Updater.writtenPath? turn.run.result <;> rfl

private theorem messages_told :
    turn.run.notices.filterMap Notice.writtenPath? = (Updater.writtenPath? turn.run.result).toList := by
  cases refused : Updater.isRefused turn.run.result with
  | true =>
      rw [(turn.effects.refused refused).2, Updater.writtenPath_of_refused _ refused]
      rfl
  | false =>
      rw [turn.effects.heard refused]
      cases Updater.writtenPath? turn.run.result <;> rfl

end Turn

/-- What the actions of a session have done when all are over. -/
structure Orderly (session : Session) (actions : List Action) : Prop where
  /-- Each update does what its result says. -/
  each : ∀ turn ∈ session.turns actions,
    turn.updater.Effects (turn.before.members turn.holder) turn.before.tree turn.run
  /-- A registry is touched by its own actions only, and by none that is refused. -/
  members : ∀ holder, (∀ made, .request holder made ∉ actions) →
    (∀ turn ∈ session.turns actions, turn.holder = holder → Updater.isRefused turn.run.result = true) →
      (session.finish actions).members holder = session.members holder
  /-- No entry changes but those of documents that were written. -/
  entries : ∀ place, (∀ turn ∈ session.turns actions, ¬ turn.WritesTo place) →
    (session.finish actions).tree.entry? place = session.tree.entry? place
  /-- There is one comment for each update that is not refused, -/
  comments : ((session.log actions).filter Notice.isComment).length =
    (session.turns actions).countP fun turn => !Updater.isRefused turn.run.result
  /-- and one message for each document that was written, in this order. -/
  messages : (session.log actions).filterMap Notice.writtenPath? =
    (session.turns actions).filterMap fun turn => Updater.writtenPath? turn.run.result

theorem orderly_nil (session : Session) : Orderly session [] where
  each := fun _ member => absurd member List.not_mem_nil
  members := fun _ _ _ => rfl
  entries := fun _ _ => rfl
  comments := rfl
  messages := rfl

private theorem orderly_request {session : Session} {holder : Nat} {made : Registry.Request} {actions : List Action}
    (later : Orderly (session.next (.request holder made)) actions) :
    Orderly session (.request holder made :: actions) where
  each := later.each
  members := by
    intro other unasked refused
    have apart : other ≠ holder := by
      rintro rfl
      exact unasked made List.mem_cons_self
    have rest := later.members other (fun made member => unasked made (List.mem_cons_of_mem _ member)) refused
    exact rest.trans (if_neg apart)
  entries := later.entries
  comments := later.comments
  messages := later.messages

private theorem log_update (session : Session) (holder : Nat) (updater : Updater) (actions : List Action) :
    session.log (.update holder updater :: actions) =
      (Turn.mk session holder updater).run.notices ++ (session.next (.update holder updater)).log actions :=
  List.flatMap_cons

private theorem orderly_update {session : Session} {holder : Nat} {updater : Updater} {actions : List Action}
    (later : Orderly (session.next (.update holder updater)) actions) :
    Orderly session (.update holder updater :: actions) where
  each := List.forall_mem_cons.mpr ⟨Turn.effects _, later.each⟩
  members := by
    intro other unasked refused
    obtain ⟨first, rest⟩ := List.forall_mem_cons.mp refused
    have kept := later.members other (fun made member => unasked made (List.mem_cons_of_mem _ member)) rest
    refine kept.trans ?_
    by_cases own : holder = other
    · exact congrFun (Turn.members_refused _ (first own)) other
    · exact Turn.members_other ⟨session, holder, updater⟩ other fun same => own same.symm
  entries := by
    intro place apart
    obtain ⟨first, rest⟩ := List.forall_mem_cons.mp apart
    exact (later.entries place rest).trans (Turn.entry_after _ place first)
  comments := by
    rw [log_update, List.filter_append, List.length_append, Turn.comments_told, later.comments, turns,
      List.countP_cons, Nat.add_comm]
    cases Updater.isRefused (Turn.mk session holder updater).run.result <;> rfl
  messages := by
    rw [log_update, List.filterMap_append, Turn.messages_told, later.messages, turns, List.filterMap_cons]
    cases Updater.writtenPath? (Turn.mk session holder updater).run.result <;> rfl

/-- Along any actions of any session each update does what its result says, a registry is changed by its own actions
only and an entry only where a document was written, and the log has a comment for each update that is not refused and
a message for each written document. -/
theorem orderly_of_actions (session : Session) (actions : List Action) : Orderly session actions := by
  induction actions generalizing session with
  | nil => exact orderly_nil session
  | cons action actions ih =>
      cases action with
      | request holder made => exact orderly_request (ih _)
      | update holder updater => exact orderly_update (ih _)

end Session
end MemberDoc
