import MemberDoc.Proofs.TargetGroups

set_option autoImplicit false

/-! Grouping as a partition of the configured targets. Targets share a group exactly if their paths have the same
names on the way from the root, and grouping changes no order: neither that of the targets of a group nor that of
the groups, which stand in the order of their first targets. An index from paths to positions, kept beside the
groups, leads to the same groups. -/

namespace MemberDoc.Path

/-- The pieces of a written path, without empty ones and without dots. -/
def names (text : Text) : List Text :=
  (Text.splitOn '/' text).filter fun segment => !isRedundant segment

/-- The names on the way to a written path that is followed from a folder; an absolute one is followed from the
root. -/
def follow (folder : List Text) (part : Text) : List Text :=
  if part.head? = some '/' then names part else folder ++ names part

@[simp] theorem names_split (left right : Text) : names (left ++ '/' :: right) = names left ++ names right := by
  unfold names
  rw [Text.splitOn_append, List.filter_append]

@[simp] theorem names_nil : names [] = [] := rfl

theorem names_join (base : Path) (part : Text) : names (base.join part).text = follow (names base.text) part := by
  unfold join follow
  split
  · rfl
  · split
    · rename_i ended
      rcases List.eq_nil_or_concat base.text with empty | ⟨lead, last, known⟩
      · rw [empty, names_nil]
        rfl
      · rw [List.concat_eq_append] at known
        have separator : last = '/' := by simpa [known] using ended
        rw [known, separator, List.append_assoc, List.singleton_append, names_split, names_split, names_nil,
          List.append_nil]
    · exact names_split base.text part

theorem isAbsolute_join (base : Path) (part : Text) (rooted : base.isAbsolute = true) :
    (base.join part).isAbsolute = true := by
  have first : base.text.head? = some '/' := of_decide_eq_true rooted
  obtain ⟨rest, whole⟩ := List.head?_eq_some_iff.mp first
  unfold join isAbsolute
  split
  · rename_i anew
    simpa using anew
  · split <;> simp [whole]

theorem components_rooted (path : Path) (rooted : path.isAbsolute = true) : path.components = names path.text := by
  have first : path.text.head? = some '/' := of_decide_eq_true rooted
  obtain ⟨rest, whole⟩ := List.head?_eq_some_iff.mp first
  unfold components names
  rw [whole, Text.splitOn, if_pos rfl]
  rfl

private theorem names_eq_components (path : Path) :
    names path.text = path.components.filter fun segment => !isRedundant segment := by
  unfold names components
  cases Text.splitOn '/' path.text with
  | nil => rfl
  | cons first rest =>
      have again : (rest.filter fun segment => !isRedundant segment).filter (fun segment => !isRedundant segment) =
          rest.filter fun segment => !isRedundant segment :=
        List.filter_eq_self.mpr fun segment member => (List.mem_filter.mp member).2
      dsimp only
      rw [List.filter_append, again]
      by_cases empty : first = []
      · rw [if_pos empty, List.filter_cons_of_neg (by simp [empty, isRedundant])]
        rfl
      · rw [if_neg empty, ← List.filter_append]
        rfl

/-- Redundant pieces are no names, so a path keeps its names when it is written without them. -/
@[simp] theorem names_normal (path : Path) : names path.normal.text = names path.text := by
  rw [names_eq_components, names_eq_components, path.parts_normal.2]

private theorem text_normal (path : Path) (rooted : path.isAbsolute = true) :
    path.normal.text = '/' :: Text.joinWith ['/'] (names path.text) := by
  rw [← components_rooted path rooted, normal, if_pos rooted]

/-- Absolute paths have one normal form exactly if they pass the same names. -/
theorem normal_eq_iff (left right : Path) (leftRooted : left.isAbsolute = true)
    (rightRooted : right.isAbsolute = true) : left.normal = right.normal ↔ names left.text = names right.text := by
  rw [← components_rooted left leftRooted, ← components_rooted right rightRooted]
  constructor
  · intro same
    rw [← left.parts_normal.2, ← right.parts_normal.2, same]
  · intro same
    rw [normal, normal, same, leftRooted, rightRooted]

end MemberDoc.Path

namespace MemberDoc.Config

/-- The names on the way to the document of a target: those of the base, of the source root and of the file, where
each absolute part starts at the root. -/
def place (config : Config) (base : Path) (target : ClassTarget) : List Text :=
  Path.follow (Path.follow (Path.names base.text) config.sourceRoot) target.file

theorem names_documentPath (config : Config) (base : Path) (target : ClassTarget) :
    Path.names (config.documentPath base target).text = config.place base target := by
  rw [documentPath, Path.names_normal, Path.names_join, Path.names_join, place]

theorem text_documentPath (config : Config) (base : Path) (rooted : base.isAbsolute = true) (target : ClassTarget) :
    (config.documentPath base target).text = '/' :: Text.joinWith ['/'] (config.place base target) := by
  have root := Path.isAbsolute_join base config.sourceRoot rooted
  rw [documentPath, Path.text_normal _ (Path.isAbsolute_join _ _ root), Path.names_join, Path.names_join, place]

theorem documentPath_eq_iff (config : Config) (base : Path) (rooted : base.isAbsolute = true)
    (left right : ClassTarget) :
    config.documentPath base left = config.documentPath base right ↔ config.place base left = config.place base right := by
  have root := Path.isAbsolute_join base config.sourceRoot rooted
  unfold documentPath place
  rw [Path.normal_eq_iff _ _ (Path.isAbsolute_join _ _ root) (Path.isAbsolute_join _ _ root)]
  simp only [Path.names_join]

end MemberDoc.Config

namespace MemberDoc.TargetGroup

variable {classes : ClassMap}

/-- A target goes to the end of a group of its path, or into a new group behind all others. -/
theorem add_cases (path : Path) (target : ClassTarget) (groups : List TargetGroup) :
    (∃ before group after, groups = before ++ group :: after ∧ group.path.same path = true ∧
        add path target groups = before ++ ⟨group.path, group.targets ++ [target]⟩ :: after) ∨
      (∀ group ∈ groups, group.path.same path = false) ∧ add path target groups = groups ++ [⟨path, [target]⟩] := by
  induction groups with
  | nil => exact .inr ⟨fun group member => absurd member List.not_mem_nil, rfl⟩
  | cons first groups ih =>
      rw [add]
      split
      · rename_i same
        exact .inl ⟨[], first, groups, rfl, same, rfl⟩
      · rename_i differs
        rcases ih with ⟨before, group, after, rfl, same, added⟩ | ⟨fresh, added⟩
        · exact .inl ⟨first :: before, group, after, rfl, same, by rw [added]; rfl⟩
        · refine .inr ⟨fun group member => ?_, by rw [added]; rfl⟩
          rcases List.mem_cons.mp member with rfl | later
          · simpa using differs
          · exact fresh group later

/-- Groups without their paths, beside an index that says for every path at which position its group stands. -/
structure Indexed where
  position? : Path → Option Nat
  groups : List (List ClassTarget)

def Indexed.add (path : Path) (target : ClassTarget) (state : Indexed) : Indexed :=
  match state.position? path with
  | some position => ⟨state.position?, state.groups.modify position (· ++ [target])⟩
  | none =>
      ⟨fun other => if path.same other then some state.groups.length else state.position? other,
        state.groups ++ [[target]]⟩

def Indexed.ofTargets (classes : ClassMap) (targets : List ClassTarget) : Indexed :=
  targets.foldl (fun state target => state.add (pathOf classes target) target) ⟨fun _ => none, []⟩

/-- The index leads to the first group of a path. -/
structure Indexed.Agrees (state : Indexed) (groups : List TargetGroup) : Prop where
  position : ∀ path, state.position? path = (groups.map TargetGroup.path).findIdx? (·.same path)
  targets : state.groups = groups.map TargetGroup.targets

private theorem add_at (path : Path) (target : ClassTarget) (groups : List TargetGroup) (position : Nat)
    (found : (groups.map TargetGroup.path).findIdx? (·.same path) = some position) :
    (add path target groups).map TargetGroup.path = groups.map TargetGroup.path ∧
      (add path target groups).map TargetGroup.targets =
        (groups.map TargetGroup.targets).modify position (· ++ [target]) := by
  induction groups generalizing position with
  | nil => cases found
  | cons group groups ih =>
      rw [List.map_cons, List.findIdx?_cons] at found
      by_cases same : group.path.same path = true
      · rw [if_pos same] at found
        cases found
        rw [add, if_pos same]
        exact ⟨rfl, rfl⟩
      · rw [if_neg same] at found
        obtain ⟨later, known, rfl⟩ := Option.map_eq_some_iff.mp found
        obtain ⟨paths, targets⟩ := ih later known
        rw [add, if_neg same]
        exact ⟨congrArg (group.path :: ·) paths, congrArg (group.targets :: ·) targets⟩

private theorem add_behind (path : Path) (target : ClassTarget) (groups : List TargetGroup)
    (missing : (groups.map TargetGroup.path).findIdx? (·.same path) = none) :
    add path target groups = groups ++ [⟨path, [target]⟩] := by
  have fresh := List.findIdx?_eq_none_iff.mp missing
  rcases add_cases path target groups with ⟨before, group, after, rfl, same, _⟩ | ⟨_, added⟩
  · rw [fresh group.path (List.mem_map_of_mem (List.mem_append_right before List.mem_cons_self))] at same
    cases same
  · exact added

private theorem Indexed.Agrees.add {state : Indexed} {groups : List TargetGroup} (agrees : state.Agrees groups)
    (path : Path) (target : ClassTarget) : (state.add path target).Agrees (TargetGroup.add path target groups) := by
  unfold Indexed.add
  cases known : state.position? path with
  | some position =>
      rw [agrees.position] at known
      obtain ⟨paths, targets⟩ := add_at path target groups position known
      exact ⟨fun other => by rw [paths]; exact agrees.position other, by rw [targets, ← agrees.targets]⟩
  | none =>
      rw [agrees.position] at known
      rw [add_behind path target groups known]
      refine ⟨fun other => ?_, by rw [List.map_append, ← agrees.targets]; rfl⟩
      rw [List.map_append, List.findIdx?_append]
      by_cases same : path.same other = true
      · -- A path that is the same as the new one has had no group either.
        have alike : (fun own : Path => own.same other) = fun own => own.same path := by
          have parts : path.isAbsolute = other.isAbsolute ∧ path.components = other.components := by
            simpa [Path.same] using same
          funext own
          rw [Path.same, Path.same, parts.1, parts.2]
        have self : path.same path = true := by simp [Path.same]
        rw [alike, known]
        simp [same, self, agrees.targets]
      · simp [same, agrees.position]

/-- Grouping through an index gives the groups of the targets, in the same order. -/
theorem groups_of_index (classes : ClassMap) (targets : List ClassTarget) :
    (Indexed.ofTargets classes targets).groups = (ofTargets classes targets).map TargetGroup.targets := by
  have run (state : Indexed) (groups : List TargetGroup) (agrees : state.Agrees groups) :
      (targets.foldl (fun state target => state.add (pathOf classes target) target) state).Agrees
        (targets.foldl (fun groups target => TargetGroup.add (pathOf classes target) target groups) groups) := by
    induction targets generalizing state groups with
    | nil => exact agrees
    | cons target targets ih => exact ih _ _ (agrees.add (pathOf classes target) target)
  exact (run ⟨fun _ => none, []⟩ [] ⟨fun _ => rfl, rfl⟩).targets

/-- What holds of the groups of the targets that have been taken in so far. -/
structure Grouped (classes : ClassMap) (taken : List ClassTarget) (groups : List TargetGroup) : Prop where
  complete : (groups.flatMap TargetGroup.targets).Perm taken
  belong : ∀ group ∈ groups, Belongs classes group
  apart : (groups.map TargetGroup.path).Nodup
  filled : ∀ group ∈ groups, group.targets ≠ []
  inner : ∀ group ∈ groups, group.targets.Sublist taken
  outer : (groups.filterMap fun group => group.targets.head?).Sublist taken

theorem grouped_nil : Grouped classes [] [] where
  complete := .nil
  belong := fun _ member => absurd member List.not_mem_nil
  apart := .nil
  filled := fun _ member => absurd member List.not_mem_nil
  inner := fun _ member => absurd member List.not_mem_nil
  outer := .slnil

theorem Grouped.still {taken : List ClassTarget} {groups : List TargetGroup} (grouped : Grouped classes taken groups)
    (target : ClassTarget) : ∀ group ∈ groups, group.targets.Sublist (taken ++ [target]) := fun group member =>
  (grouped.inner group member).trans (List.sublist_append_left taken [target])

private theorem Grouped.join {taken : List ClassTarget} {before after : List TargetGroup} {group : TargetGroup}
    (grouped : Grouped classes taken (before ++ group :: after)) (target : ClassTarget)
    (belong : ∀ other ∈ before ++ ⟨group.path, group.targets ++ [target]⟩ :: after, Belongs classes other) :
    Grouped classes (taken ++ [target]) (before ++ ⟨group.path, group.targets ++ [target]⟩ :: after) := by
  have here : group ∈ before ++ group :: after := by simp
  obtain ⟨first, later, begins⟩ := List.exists_cons_of_ne_nil (grouped.filled group here)
  have known (other : TargetGroup) (member : other ∈ before ++ ⟨group.path, group.targets ++ [target]⟩ :: after) :
      other ∈ before ++ group :: after ∨ other = ⟨group.path, group.targets ++ [target]⟩ := by
    simp only [List.mem_append, List.mem_cons] at member ⊢
    rcases member with early | new | late
    · exact .inl (.inl early)
    · exact .inr new
    · exact .inl (.inr (.inr late))
  refine ⟨?_, belong, ?_, fun other member => ?_, fun other member => ?_, ?_⟩
  · have moved : (before.flatMap TargetGroup.targets ++ group.targets ++ target :: after.flatMap TargetGroup.targets).Perm
        (target :: taken) := by
      refine List.perm_middle.trans (.cons target ?_)
      simpa using grouped.complete
    refine List.Perm.trans ?_ (moved.trans (List.perm_append_singleton target taken).symm)
    simp
  · have old := grouped.apart
    rw [List.map_append, List.map_cons] at old ⊢
    exact old
  · rcases known other member with old | rfl
    · exact grouped.filled other old
    · exact List.append_ne_nil_of_right_ne_nil _ (List.cons_ne_nil target [])
  · rcases known other member with old | rfl
    · exact grouped.still target other old
    · exact (grouped.inner group here).append (List.Sublist.refl [target])
  · -- The group still starts with the target it started with.
    have old := grouped.outer
    rw [List.filterMap_append, List.filterMap_cons, begins] at old ⊢
    exact old.trans (List.sublist_append_left taken [target])

private theorem Grouped.start {taken : List ClassTarget} {groups : List TargetGroup}
    (grouped : Grouped classes taken groups) (path : Path) (target : ClassTarget)
    (fresh : ∀ group ∈ groups, group.path.same path = false)
    (belong : ∀ other ∈ groups ++ [⟨path, [target]⟩], Belongs classes other) :
    Grouped classes (taken ++ [target]) (groups ++ [⟨path, [target]⟩]) := by
  refine ⟨?_, belong, ?_, fun other member => ?_, fun other member => ?_, ?_⟩
  · rw [List.flatMap_append]
    exact grouped.complete.append_right [target]
  · rw [List.map_append, List.nodup_append]
    refine ⟨grouped.apart, List.pairwise_singleton _ _, ?_⟩
    rintro own known _ isNew rfl
    obtain ⟨group, member, named⟩ := List.mem_map.mp known
    have differs := fresh group member
    rw [named, List.mem_singleton.mp isNew] at differs
    simp [Path.same] at differs
  · rcases List.mem_append.mp member with old | new
    · exact grouped.filled other old
    · rw [List.mem_singleton.mp new]
      exact List.cons_ne_nil target []
  · rcases List.mem_append.mp member with old | new
    · exact grouped.still target other old
    · rw [List.mem_singleton.mp new]
      exact List.sublist_append_right taken [target]
  · rw [List.filterMap_append]
    exact grouped.outer.append (List.Sublist.refl [target])

/-- Groups of the targets taken so far become groups of these and one target more. -/
theorem Grouped.add {taken : List ClassTarget} {groups : List TargetGroup} (grouped : Grouped classes taken groups)
    (target : ClassTarget) (normal : (pathOf classes target).normal = pathOf classes target) :
    Grouped classes (taken ++ [target]) (add (pathOf classes target) target groups) := by
  have belong := belongs_add groups target normal grouped.belong
  rcases add_cases (pathOf classes target) target groups with ⟨before, group, after, rfl, _, added⟩ | ⟨fresh, added⟩
  · rw [added] at belong ⊢
    exact grouped.join target belong
  · rw [added] at belong ⊢
    exact grouped.start _ target fresh belong

private theorem Grouped.foldl {taken : List ClassTarget} {groups : List TargetGroup}
    (grouped : Grouped classes taken groups) (targets : List ClassTarget)
    (normal : ∀ target ∈ targets, (pathOf classes target).normal = pathOf classes target) :
    Grouped classes (taken ++ targets)
      (targets.foldl (fun groups target => TargetGroup.add (pathOf classes target) target groups) groups) := by
  induction targets generalizing taken groups with
  | nil =>
      rw [List.append_nil]
      exact grouped
  | cons target targets ih =>
      obtain ⟨own, others⟩ := List.forall_mem_cons.mp normal
      have later := ih (grouped.add target own) others
      rw [List.append_assoc, List.singleton_append] at later
      exact later

private theorem grouped_ofTargets (targets : List ClassTarget)
    (normal : ∀ target ∈ targets, (pathOf classes target).normal = pathOf classes target) :
    Grouped classes targets (ofTargets classes targets) :=
  grouped_nil.foldl targets normal

theorem Grouped.together_iff {taken : List ClassTarget} {groups : List TargetGroup}
    (grouped : Grouped classes taken groups) (left right : ClassTarget) (isLeft : left ∈ taken) (isRight : right ∈ taken) :
    (∃ group ∈ groups, left ∈ group.targets ∧ right ∈ group.targets) ↔ pathOf classes left = pathOf classes right := by
  have home (target : ClassTarget) (member : target ∈ taken) :
      ∃ group ∈ groups, target ∈ group.targets ∧ pathOf classes target = group.path := by
    obtain ⟨group, present, inside⟩ := List.mem_flatMap.mp (grouped.complete.mem_iff.mpr member)
    exact ⟨group, present, inside, (grouped.belong group present).2 target inside⟩
  constructor
  · rintro ⟨group, present, inLeft, inRight⟩
    have named := (grouped.belong group present).2
    rw [named left inLeft, named right inRight]
  · intro same
    obtain ⟨group, present, inLeft, leftNamed⟩ := home left isLeft
    obtain ⟨other, alsoPresent, inRight, rightNamed⟩ := home right isRight
    have found (own : TargetGroup) (member : own ∈ groups) :
        (groups.map fun group => (group.path, group)).lookup own.path = some own := by
      apply lookup_of_mem
      · rw [List.map_map]
        exact grouped.apart
      · exact List.mem_map.mpr ⟨own, member, rfl⟩
    have one : group = other := by
      have first := found group present
      rw [← leftNamed, same, rightNamed, found other alsoPresent] at first
      exact (Option.some.inj first).symm
    subst one
    exact ⟨group, present, inLeft, inRight⟩

/-- Groups that part some targets by where their documents are, and keep the targets in order. -/
structure Partitions (place : ClassTarget → List Text) (targets : List ClassTarget) (groups : List TargetGroup) :
    Prop where
  complete : (groups.flatMap TargetGroup.targets).Perm targets
  once : (groups.flatMap TargetGroup.targets).Nodup
  filled : ∀ group ∈ groups, group.targets ≠ []
  together : ∀ left ∈ targets, ∀ right ∈ targets,
    (∃ group ∈ groups, left ∈ group.targets ∧ right ∈ group.targets) ↔ place left = place right
  inner : ∀ group ∈ groups, group.targets.Sublist targets
  /-- The first targets of the groups stand in the order of the targets. -/
  outer : (groups.filterMap fun group => group.targets.head?).Sublist targets

theorem grouped_of_valid (config : Config) (base : Path) (valid : config.fault? = none) :
    Grouped (config.classMap base) config.classes (ofTargets (config.classMap base) config.classes) := by
  apply grouped_ofTargets
  intro target member
  rw [pathOf_classMap config base valid target member]
  exact Path.normal_normal _

theorem together_iff_place (config : Config) (base : Path) (valid : config.fault? = none)
    (rooted : base.isAbsolute = true) (left right : ClassTarget) (isLeft : left ∈ config.classes)
    (isRight : right ∈ config.classes) :
    (∃ group ∈ ofTargets (config.classMap base) config.classes, left ∈ group.targets ∧ right ∈ group.targets) ↔
      config.place base left = config.place base right := by
  rw [(grouped_of_valid config base valid).together_iff left right isLeft isRight,
    pathOf_classMap config base valid left isLeft, pathOf_classMap config base valid right isRight]
  exact config.documentPath_eq_iff base rooted left right

/-- In a configuration without faults every target is in exactly one group, together with the targets whose paths
pass the same names, and both the targets of a group and the groups keep the configured order. -/
theorem partitions_ofTargets (config : Config) (base : Path) (valid : config.fault? = none)
    (rooted : base.isAbsolute = true) :
    Partitions (config.place base) config.classes (ofTargets (config.classMap base) config.classes) := by
  have grouped := grouped_of_valid config base valid
  have distinct : config.classes.Nodup :=
    List.Pairwise.of_map _ (fun _ _ differ same => differ (by rw [same])) (config.nodup_keys valid)
  refine ⟨grouped.complete, grouped.complete.nodup_iff.mpr distinct, grouped.filled, ?_, grouped.inner, grouped.outer⟩
  intro left isLeft right isRight
  exact together_iff_place config base valid rooted left right isLeft isRight

/-- Four targets in two documents, one of which is spelled in three ways. -/
def shelf : Config where
  sourceRoot := "./src//".toList
  reset := false
  overwrite := false
  classes :=
    [⟨"Post".toList, "./Post.php".toList, [], [], [], []⟩, ⟨"Note".toList, "Note.php".toList, [], [], [], []⟩,
      ⟨"Draft".toList, "/site/src/./Post.php".toList, [], [], [], []⟩,
      ⟨"Scope".toList, "Post.php/".toList, [], [], [], []⟩]

theorem partitions_ofTargets_shelf :
    shelf.fault? = none ∧ Path.isAbsolute ⟨"/site".toList⟩ = true ∧
      Partitions (shelf.place ⟨"/site".toList⟩) shelf.classes
        (ofTargets (shelf.classMap ⟨"/site".toList⟩) shelf.classes) ∧
      (ofTargets (shelf.classMap ⟨"/site".toList⟩) shelf.classes).map (fun group => group.targets.map (·.className)) =
        [["Post".toList, "Draft".toList, "Scope".toList], ["Note".toList]] :=
  ⟨by decide +kernel, rfl, partitions_ofTargets shelf ⟨"/site".toList⟩ (by decide +kernel) rfl, by decide +kernel⟩

end MemberDoc.TargetGroup
