import MemberDoc.Config.Grouping
import MemberDoc.Proofs.TextLines

set_option autoImplicit false

/-! The documents of a configuration and the order in which its targets are updated. Documents are named by
normal paths, so the targets of one group are those of one path, and leaving out the targets of some paths
leaves the order of the others as it is. -/

namespace MemberDoc.Path

private theorem components_joinWith (first : Text) (rest : List Text) (apart : ∀ piece ∈ first :: rest, '/' ∉ piece)
    (solid : ∀ piece ∈ rest, isRedundant piece = false) :
    components ⟨Text.joinWith ['/'] (first :: rest)⟩ = (if first = [] then [] else [first]) ++ rest := by
  unfold components
  rw [Text.splitOn_joinWith '/' (first :: rest) (List.cons_ne_nil _ _) apart]
  dsimp only
  rw [List.filter_eq_self.mpr]
  intro piece member
  rw [solid piece member]
  rfl

private theorem mem_components_rooted (rest : Text) :
    ∀ piece ∈ components ⟨'/' :: rest⟩, '/' ∉ piece ∧ isRedundant piece = false := by
  intro piece member
  have split : components ⟨'/' :: rest⟩ = (Text.splitOn '/' rest).filter fun segment => !isRedundant segment := by
    simp [components, Text.splitOn]
  rw [split] at member
  obtain ⟨inside, counts⟩ := List.mem_filter.mp member
  exact ⟨Text.not_mem_of_mem_splitOn '/' rest piece inside, by simpa using counts⟩

private theorem components_relative (c : Char) (rest : Text) (relative : c ≠ '/') :
    ∃ head tail, components ⟨c :: rest⟩ = (c :: head) :: tail ∧ '/' ∉ c :: head ∧
      ∀ piece ∈ tail, '/' ∉ piece ∧ isRedundant piece = false := by
  obtain ⟨head, tail, pieces⟩ : ∃ head tail, Text.splitOn '/' (c :: rest) = (c :: head) :: tail := by
    rw [Text.splitOn, if_neg relative]
    cases Text.splitOn '/' rest with
    | nil => exact ⟨[], [], rfl⟩
    | cons head tail => exact ⟨head, tail, rfl⟩
  have unbroken := Text.not_mem_of_mem_splitOn '/' (c :: rest)
  rw [pieces] at unbroken
  refine ⟨head, tail.filter fun segment => !isRedundant segment, by simp [components, pieces],
    unbroken _ List.mem_cons_self, fun piece member => ?_⟩
  obtain ⟨inside, counts⟩ := List.mem_filter.mp member
  exact ⟨unbroken piece (List.mem_cons_of_mem _ inside), by simpa using counts⟩

/-- A normal path has the components of the path it was made from, and starts where that does. -/
theorem parts_normal (path : Path) :
    path.normal.isAbsolute = path.isAbsolute ∧ path.normal.components = path.components := by
  obtain ⟨text⟩ := path
  cases text with
  | nil => exact ⟨rfl, rfl⟩
  | cons c rest =>
      by_cases rooted : c = '/'
      · subst rooted
        refine ⟨rfl, ?_⟩
        have facts := mem_components_rooted rest
        change components ⟨'/' :: Text.joinWith ['/'] (components ⟨'/' :: rest⟩)⟩ = components ⟨'/' :: rest⟩
        generalize components ⟨'/' :: rest⟩ = pieces at facts
        cases pieces with
        | nil => rfl
        | cons piece pieces =>
            -- The separator in front stands behind an empty first piece.
            change components ⟨Text.joinWith ['/'] ([] :: piece :: pieces)⟩ = _
            rw [components_joinWith [] _ _ fun other member => (facts other member).2]
            · rfl
            · intro other member
              rcases List.mem_cons.mp member with rfl | later
              · exact List.not_mem_nil
              · exact (facts other later).1
      · obtain ⟨head, tail, split, first, facts⟩ := components_relative c rest rooted
        have relative : isAbsolute ⟨c :: rest⟩ = false := by simp [isAbsolute, rooted]
        have normal : Path.normal ⟨c :: rest⟩ = ⟨Text.joinWith ['/'] ((c :: head) :: tail)⟩ := by
          simp [Path.normal, relative, split]
        rw [normal, split, relative]
        constructor
        · obtain ⟨more, started⟩ := Text.joinWith_start ['/'] (c :: head) tail
          rw [started]
          simp [isAbsolute, rooted]
        · rw [components_joinWith (c :: head) _ _ fun piece member => (facts piece member).2]
          · rfl
          · intro piece member
            rcases List.mem_cons.mp member with rfl | later
            · exact first
            · exact (facts piece later).1

@[simp] theorem normal_normal (path : Path) : path.normal.normal = path.normal := by
  obtain ⟨absolute, components⟩ := path.parts_normal
  rw [normal, absolute, components]
  rfl

theorem eq_of_same (left right : Path) (leftNormal : left.normal = left) (rightNormal : right.normal = right)
    (same : left.same right = true) : left = right := by
  have parts : left.isAbsolute = right.isAbsolute ∧ left.components = right.components := by
    simpa [Path.same] using same
  rw [← leftNormal, ← rightNormal, normal, normal, parts.1, parts.2]

end MemberDoc.Path

namespace MemberDoc.Config

/-- Targets have no fault exactly if each names a class and a document and no key is taken twice. -/
theorem firstFault_eq_none_iff (targets : List ClassTarget) (taken : List Text) (index : Nat) :
    firstFault? taken index targets = none ↔
      (∀ target ∈ targets, (Text.trim target.className).dropWhile (· == '\\') ≠ [] ∧ Text.trim target.file ≠ []) ∧
        (targets.map (ClassName.key ·.className)).Nodup ∧
        ∀ target ∈ targets, ClassName.key target.className ∉ taken := by
  induction targets generalizing taken index with
  | nil => simp [firstFault?]
  | cons target targets ih =>
      rw [firstFault?, List.map_cons, List.nodup_cons, List.forall_mem_cons, List.forall_mem_cons]
      split
      · rename_i noClass
        simp [noClass]
      split
      · rename_i noFile
        simp [noFile]
      split
      · rename_i known
        simp [List.contains_iff_mem.mp known]
      rename_i named filed free
      have fresh : ClassName.key target.className ∉ taken := by simpa using free
      -- A key that is taken by the first target is free for none of the others.
      have split : (∀ other ∈ targets, ClassName.key other.className ∉ ClassName.key target.className :: taken) ↔
          ClassName.key target.className ∉ targets.map (ClassName.key ·.className) ∧
            ∀ other ∈ targets, ClassName.key other.className ∉ taken := by
        simp only [List.mem_cons, not_or, List.mem_map, not_exists, not_and]
        exact ⟨fun apart => ⟨fun other member => (apart other member).1, fun other member => (apart other member).2⟩,
          fun apart other member => ⟨apart.1 other member, apart.2 other member⟩⟩
      rw [ih, split]
      simp only [named, filed, fresh, ne_eq, not_false_eq_true, true_and]
      exact ⟨fun ⟨each, distinct, new, old⟩ => ⟨each, ⟨new, distinct⟩, old⟩,
        fun ⟨each, ⟨new, distinct⟩, old⟩ => ⟨each, distinct, new, old⟩⟩

theorem nodup_keys (config : Config) (valid : config.fault? = none) :
    (config.classes.map (ClassName.key ·.className)).Nodup :=
  ((firstFault_eq_none_iff config.classes [] 0).mp valid).2.1

private theorem entries_insert (classes : ClassMap) (className : Text) (path : Path)
    (fresh : ClassName.key className ∉ classes.entries.map Prod.fst) :
    (classes.insert className path).entries = classes.entries ++ [(ClassName.key className, path)] := by
  have all : classes.entries.filter (·.1 ≠ ClassName.key className) = classes.entries := by
    apply List.filter_eq_self.mpr
    intro entry member
    have differs : entry.1 ≠ ClassName.key className :=
      fun same => fresh (same ▸ List.mem_map_of_mem member)
    simpa using differs
  change classes.entries.filter (·.1 ≠ ClassName.key className) ++ _ = _
  rw [all]

private theorem entries_foldl_insert (pathOf : ClassTarget → Path) (targets : List ClassTarget) (classes : ClassMap)
    (distinct : (classes.entries.map Prod.fst ++ targets.map (ClassName.key ·.className)).Nodup) :
    (targets.foldl (fun classes target => classes.insert target.className (pathOf target)) classes).entries =
      classes.entries ++ targets.map fun target => (ClassName.key target.className, pathOf target) := by
  induction targets generalizing classes with
  | nil => simp
  | cons target targets ih =>
      have fresh : ClassName.key target.className ∉ classes.entries.map Prod.fst := by
        intro member
        exact (List.nodup_append.mp distinct).2.2 _ member _ List.mem_cons_self rfl
      have grown := entries_insert classes target.className (pathOf target) fresh
      rw [List.foldl_cons, ih, grown, List.append_assoc]
      · rfl
      · rw [grown]
        simpa using distinct

theorem entries_classMap (config : Config) (base : Path)
    (distinct : (config.classes.map (ClassName.key ·.className)).Nodup) :
    (config.classMap base).entries =
      config.classes.map fun target => (ClassName.key target.className, config.documentPath base target) :=
  entries_foldl_insert (config.documentPath base) config.classes .empty distinct

theorem path_classMap (config : Config) (base : Path) (valid : config.fault? = none) (target : ClassTarget)
    (member : target ∈ config.classes) :
    (config.classMap base).path? target.className = some (config.documentPath base target) := by
  unfold ClassMap.path?
  rw [config.entries_classMap base (config.nodup_keys valid)]
  apply lookup_of_mem
  · simpa [Function.comp_def] using config.nodup_keys valid
  · exact List.mem_map_of_mem member

theorem classMap_of_perm (config : Config) (base : Path) (others : List ClassTarget) (valid : config.fault? = none)
    (reordered : others.Perm config.classes) :
    (Config.classMap { config with classes := others } base).entries.length = (config.classMap base).entries.length ∧
      ∀ className, (Config.classMap { config with classes := others } base).path? className =
        (config.classMap base).path? className := by
  have distinct := config.nodup_keys valid
  have also : (others.map (ClassName.key ·.className)).Nodup := (reordered.map _).nodup_iff.mpr distinct
  unfold ClassMap.path?
  rw [config.entries_classMap base distinct, Config.entries_classMap { config with classes := others } base also]
  refine ⟨by simpa using reordered.length_eq, fun className => ?_⟩
  apply lookup_perm _ _ (reordered.map _)
  simpa [Function.comp_def] using also

end MemberDoc.Config

namespace MemberDoc.TargetGroup

variable {classes : ClassMap}

def schedule (classes : ClassMap) (targets : List ClassTarget) : List ClassTarget :=
  (ofTargets classes targets).flatMap TargetGroup.targets

/-- A group is named by the normal path of all its targets. -/
def Belongs (classes : ClassMap) (group : TargetGroup) : Prop :=
  group.path.normal = group.path ∧ ∀ target ∈ group.targets, pathOf classes target = group.path

theorem pathOf_classMap (config : Config) (base : Path) (valid : config.fault? = none) (target : ClassTarget)
    (member : target ∈ config.classes) : pathOf (config.classMap base) target = config.documentPath base target := by
  unfold pathOf
  rw [config.path_classMap base valid target member]
  rfl

theorem belongs_add (groups : List TargetGroup) (target : ClassTarget)
    (normal : (pathOf classes target).normal = pathOf classes target)
    (belong : ∀ group ∈ groups, Belongs classes group) :
    ∀ group ∈ add (pathOf classes target) target groups, Belongs classes group := by
  induction groups with
  | nil =>
      intro group member
      rw [List.mem_singleton.mp member]
      exact ⟨normal, fun other inside => by rw [List.mem_singleton.mp inside]⟩
  | cons first groups ih =>
      have own := belong first List.mem_cons_self
      rw [add]
      split
      · rename_i same
        have named := Path.eq_of_same _ _ own.1 normal same
        intro group member
        rcases List.mem_cons.mp member with rfl | later
        · refine ⟨own.1, fun other inside => ?_⟩
          rcases List.mem_append.mp inside with before | last
          · exact own.2 other before
          · rw [List.mem_singleton.mp last]
            exact named.symm
        · exact belong group (List.mem_cons_of_mem first later)
      · intro group member
        rcases List.mem_cons.mp member with rfl | later
        · exact own
        · exact ih (fun other inside => belong other (List.mem_cons_of_mem first inside)) group later

private theorem filter_add (keeps : Path → Bool) (groups : List TargetGroup) (target : ClassTarget)
    (normal : (pathOf classes target).normal = pathOf classes target)
    (belong : ∀ group ∈ groups, Belongs classes group) :
    (add (pathOf classes target) target groups).filter (fun group => keeps group.path) =
      if keeps (pathOf classes target) then
        add (pathOf classes target) target (groups.filter fun group => keeps group.path)
      else groups.filter fun group => keeps group.path := by
  induction groups with
  | nil => cases chosen : keeps (pathOf classes target) <;> simp [add, chosen]
  | cons first groups ih =>
      have rest := ih fun other inside => belong other (List.mem_cons_of_mem first inside)
      rw [add]
      split
      · rename_i same
        have named := Path.eq_of_same _ _ (belong first List.mem_cons_self).1 normal same
        rw [named] at same
        cases chosen : keeps (pathOf classes target) <;> simp [add, chosen, named, same]
      · rename_i differs
        cases own : keeps first.path <;> cases chosen : keeps (pathOf classes target) <;>
          simp [add, own, chosen, differs, rest]

private theorem filter_foldl_add (keeps : Path → Bool) (targets : List ClassTarget) (groups : List TargetGroup)
    (normal : ∀ target ∈ targets, (pathOf classes target).normal = pathOf classes target)
    (belong : ∀ group ∈ groups, Belongs classes group) :
    (∀ group ∈ targets.foldl (fun groups target => add (pathOf classes target) target groups) groups,
        Belongs classes group) ∧
      (targets.foldl (fun groups target => add (pathOf classes target) target groups) groups).filter
          (fun group => keeps group.path) =
        (targets.filter fun target => keeps (pathOf classes target)).foldl
          (fun groups target => add (pathOf classes target) target groups)
          (groups.filter fun group => keeps group.path) := by
  induction targets generalizing groups with
  | nil => exact ⟨belong, rfl⟩
  | cons target targets ih =>
      have own := normal target List.mem_cons_self
      obtain ⟨all, rest⟩ := ih _ (fun other inside => normal other (List.mem_cons_of_mem target inside))
        (belongs_add groups target own belong)
      refine ⟨all, ?_⟩
      rw [List.foldl_cons, rest, filter_add keeps groups target own belong]
      cases chosen : keeps (pathOf classes target) <;> simp [chosen]

private theorem filter_flatMap (keeps : Path → Bool) (groups : List TargetGroup)
    (belong : ∀ group ∈ groups, Belongs classes group) :
    (groups.flatMap TargetGroup.targets).filter (fun target => keeps (pathOf classes target)) =
      (groups.filter fun group => keeps group.path).flatMap TargetGroup.targets := by
  induction groups with
  | nil => rfl
  | cons first groups ih =>
      have own := (belong first List.mem_cons_self).2
      have whole : first.targets.filter (fun target => keeps (pathOf classes target)) =
          if keeps first.path then first.targets else [] := by
        cases chosen : keeps first.path with
        | true => exact List.filter_eq_self.mpr fun target member => by rw [own target member, chosen]
        | false => exact List.filter_eq_nil_iff.mpr fun target member => by simp [own target member, chosen]
      rw [List.flatMap_cons, List.filter_append, whole,
        ih fun other inside => belong other (List.mem_cons_of_mem first inside)]
      cases chosen : keeps first.path <;> simp [chosen]

/-- The targets of some documents are updated in the order they would have without the others. -/
theorem filter_schedule (keeps : Path → Bool) (targets : List ClassTarget)
    (normal : ∀ target ∈ targets, (pathOf classes target).normal = pathOf classes target) :
    (schedule classes targets).filter (fun target => keeps (pathOf classes target)) =
      schedule classes (targets.filter fun target => keeps (pathOf classes target)) := by
  obtain ⟨belong, grouped⟩ := filter_foldl_add keeps targets [] normal (fun group member => absurd member List.not_mem_nil)
  unfold schedule ofTargets
  rw [filter_flatMap keeps _ belong, grouped]
  rfl

end MemberDoc.TargetGroup
