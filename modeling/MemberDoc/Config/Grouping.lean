import MemberDoc.Config.Basic

set_option autoImplicit false

/-! Targets grouped by document. Targets of one document are worked on one after the other, each
on the text that its predecessor left. -/

namespace MemberDoc

/-- A document and its targets, in configured order. -/
structure TargetGroup where
  path : Path
  targets : List ClassTarget
  deriving DecidableEq

namespace TargetGroup

/-- Put a target at the end of the group of its document, which may be a new group. -/
def add (path : Path) (target : ClassTarget) : List TargetGroup → List TargetGroup
  | [] => [⟨path, [target]⟩]
  | group :: rest =>
      if group.path.same path then ⟨group.path, group.targets ++ [target]⟩ :: rest
      else group :: add path target rest

/-- The document of a target; one that is not mapped stands for itself. -/
def pathOf (classes : ClassMap) (target : ClassTarget) : Path :=
  (classes.path? target.className).getD ⟨Text.trim target.file⟩

def ofTargets (classes : ClassMap) (targets : List ClassTarget) : List TargetGroup :=
  targets.foldl (fun groups target => add (pathOf classes target) target groups) []

end TargetGroup
end MemberDoc
