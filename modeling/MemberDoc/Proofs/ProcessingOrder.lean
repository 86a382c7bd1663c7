import MemberDoc.CommandLine.Run
import MemberDoc.Proofs.Ancestry
import MemberDoc.Proofs.TargetGroups

set_option autoImplicit false

/-! The order in which documents are updated. An update writes its own document only, but asks the ancestors of
its class which of the pending members they declare. A document therefore ends up as if it had been updated
alone, whatever was done in between, provided that no other document changes the answers; without that the
order decides which members are described. -/

namespace MemberDoc.Updater

open ClassMap

variable (registry : Registry) (snapshot : Snapshot)

theorem hasProperty_restricted (name : Text) (pending : name ∈ registry.propertyNames) :
    (restricted registry snapshot).hasProperty name = snapshot.hasProperty name := by
  change (registry.propertyNames.filter snapshot.properties.contains).contains name = snapshot.properties.contains name
  rw [Bool.eq_iff_iff]
  simp [List.mem_filter, pending]

theorem hasMethod_restricted (name : Text) (pending : name ∈ registry.methodNames) :
    (restricted registry snapshot).hasMethod name = snapshot.hasMethod name := by
  change (registry.methodNames.filter fun other => snapshot.methods.any (Text.sameName · other)).any
    (Text.sameName · name) = snapshot.methods.any (Text.sameName · name)
  rw [Bool.eq_iff_iff]
  simp only [List.any_eq_true, List.mem_filter, Text.sameName, beq_iff_eq]
  constructor
  · rintro ⟨other, ⟨_, method, member, same⟩, again⟩
    exact ⟨method, member, same.trans again⟩
  · rintro ⟨method, member, same⟩
    exact ⟨name, ⟨pending, method, member, same⟩, rfl⟩

private theorem tags_restricted (options : Options) :
    ClassDoc.tags (restricted registry snapshot) registry options = ClassDoc.tags snapshot registry options := by
  have present : ClassDoc.present (restricted registry snapshot) = ClassDoc.present snapshot := rfl
  unfold ClassDoc.tags
  rw [present]
  dsimp only
  congr 2
  · congr 1
    apply List.filter_congr
    intro property member
    rw [hasProperty_restricted registry snapshot _ (List.mem_append_left _ (List.mem_map_of_mem member))]
  · apply List.filter_congr
    intro method member
    rw [hasMethod_restricted registry snapshot _ (List.mem_append_left _ (List.mem_map_of_mem member))]

/-- The new text of a document depends on which pending members are declared, not on the others. -/
theorem contents_restricted (options : Options) :
    contents options registry (restricted registry snapshot) = contents options registry snapshot := by
  have properties : Insertion.missingProperties (restricted registry snapshot) registry =
      Insertion.missingProperties snapshot registry := by
    apply List.filter_congr
    intro property member
    rw [hasProperty_restricted registry snapshot _ (List.mem_append_right _ (List.mem_map_of_mem member))]
  have methods : Insertion.missingMethods (restricted registry snapshot) registry =
      Insertion.missingMethods snapshot registry := by
    apply List.filter_congr
    intro method member
    rw [hasMethod_restricted registry snapshot _ (List.mem_append_right _ (List.mem_map_of_mem member))]
  unfold contents Insertion.edit ClassDoc.text
  rw [properties, methods, tags_restricted]
  rfl

end MemberDoc.Updater

namespace MemberDoc.CommandLine

open ClassMap

variable {options : Options} {classes : ClassMap}

def step (options : Options) (classes : ClassMap) (tree : Tree) (target : ClassTarget) : Tree :=
  ((updaterOf options classes target).run .empty tree).tree

private theorem runTargets_tree (targets : List ClassTarget) (tree : Tree) :
    (runTargets options classes targets tree).2 = targets.foldl (step options classes) tree := by
  induction targets generalizing tree with
  | nil => rfl
  | cons target targets ih => exact ih (step options classes tree target)

def pending (target : ClassTarget) : Registry :=
  Registry.empty.addAll target.requests

def draft? (options : Options) (target : ClassTarget) (snapshot : Snapshot) : Option Text :=
  let text := Updater.contents options (pending target) snapshot
  if snapshot.instantiable && text ≠ snapshot.source && !options.dryRun then some text else none

private theorem draft_restricted (target : ClassTarget) (snapshot : Snapshot) :
    draft? options target (restricted (pending target) snapshot) = draft? options target snapshot := by
  unfold draft?
  rw [Updater.contents_restricted]
  rfl

def revise (options : Options) (tree : Tree) (target : ClassTarget) (snapshot : Snapshot) : Tree :=
  match draft? options target snapshot with
  | none => tree
  | some text => tree.overwrite snapshot.path text

theorem step_of_reflect (tree : Tree) (target : ClassTarget) :
    step options classes tree target =
      match (classes.reflect tree (ClassName.qualified target.className)).toOption with
      | none => tree
      | some snapshot => revise options tree target snapshot := by
  have same : (updaterOf options classes target).reflector tree (updaterOf options classes target).qualifiedName =
      classes.reflect tree (ClassName.qualified target.className) := rfl
  unfold step Updater.run revise draft? pending Tree.overwrite
  rw [same]
  cases classes.reflect tree (ClassName.qualified target.className) with
  | error cause => rfl
  | ok snapshot =>
      dsimp only [updaterOf, List.foldl_cons, List.foldl_nil, Except.toOption]
      generalize Updater.contents options (Registry.empty.addAll target.requests) snapshot = text
      cases snapshot.instantiable with
      | false => rfl
      | true =>
          by_cases same : text = snapshot.source
          · simp [same]
          · by_cases dry : options.dryRun = true
            · simp [same, dry]
            · simp only [same, dry, ne_eq, not_false_eq_true, decide_true, Bool.and_self, Bool.not_false, Bool.not_true,
                if_true, Bool.false_eq_true, if_false]
              cases tree.write snapshot.path text <;> rfl

/-- An update needs to know of the pending members only. -/
theorem step_eq (tree : Tree) (target : ClassTarget) :
    step options classes tree target =
      match (classes.reflect tree (ClassName.qualified target.className)).toOption.map (restricted (pending target)) with
      | none => tree
      | some snapshot => revise options tree target snapshot := by
  rw [step_of_reflect]
  cases (classes.reflect tree (ClassName.qualified target.className)).toOption with
  | none => rfl
  | some snapshot =>
      dsimp only [Option.map_some, revise]
      rw [draft_restricted]
      rfl

def placeOf (classes : ClassMap) (tree : Tree) (target : ClassTarget) : Option (List Text) :=
  (tree.locate (TargetGroup.pathOf classes target)).toOption

theorem placeOf_congr (left right : Tree) (shape : left.SameShape right) (target : ClassTarget) :
    placeOf classes left target = placeOf classes right target := by
  unfold placeOf
  rw [shape.locate_eq]

theorem placeOf_of_reflect (tree : Tree) (target : ClassTarget) (snapshot : Snapshot)
    (reflected : classes.reflect tree (ClassName.qualified target.className) = .ok snapshot) :
    ∃ place writable, tree.locate snapshot.path = .ok place ∧ placeOf classes tree target = some place ∧
      tree.entry? place = some (.document (.text snapshot.source) writable) := by
  obtain ⟨path, source, site, names, mapped, read, _, _, rfl⟩ := (reflect_eq_ok_iff _ _ _ _).mp reflected
  rw [ClassName.qualified_qualified, path_qualified] at mapped
  obtain ⟨place, writable, located, known⟩ := (tree.read_eq_ok_iff path source).mp read
  refine ⟨place, writable, located, ?_, known⟩
  unfold placeOf TargetGroup.pathOf
  rw [mapped, Option.getD_some, located]
  rfl

/-- An update keeps the shape of the tree and every entry but that of its own document. -/
theorem step_frame (tree : Tree) (target : ClassTarget) :
    (step options classes tree target).SameShape tree ∧
      ∀ place, placeOf classes tree target ≠ some place →
        Tree.entry? (step options classes tree target) place = tree.entry? place := by
  rw [step_of_reflect]
  cases reflected : classes.reflect tree (ClassName.qualified target.className) with
  | error cause => exact ⟨fun _ => rfl, fun _ _ => rfl⟩
  | ok snapshot =>
      dsimp only [Except.toOption, revise]
      cases draft? options target snapshot with
      | none => exact ⟨fun _ => rfl, fun _ _ => rfl⟩
      | some text =>
          obtain ⟨place, writable, located, leads, known⟩ := placeOf_of_reflect tree target snapshot reflected
          refine ⟨tree.sameShape_overwrite _ place _ writable text located known, fun other elsewhere => ?_⟩
          apply tree.entry_overwrite _ place other _ writable text located known
          rintro rfl
          exact elsewhere leads

/-- What an update leaves in its own document depends on that document and on what the ancestors of its class
hand down. -/
theorem step_congr (left right : Tree) (shape : left.SameShape right) (target : ClassTarget) (place : List Text)
    (leads : placeOf classes left target = some place) (own : left.entry? place = right.entry? place)
    (same : ∀ ancestor ∈ ancestors classes left (ClassName.qualified target.className),
      legacy? (pending target) right ancestor = legacy? (pending target) left ancestor) :
    Tree.entry? (step options classes left target) place = Tree.entry? (step options classes right target) place := by
  have reflected := reflect_of_legacy (pending target) classes left right (ClassName.qualified target.className)
    (by
      intro path mapped
      rw [path_qualified] at mapped
      apply (left.read_congr right shape path ?_).symm
      intro found located
      unfold placeOf TargetGroup.pathOf at leads
      rw [mapped, Option.getD_some, located] at leads
      cases leads
      exact own)
    (by
      simpa using same)
  rw [step_eq, step_eq, reflected]
  cases known : classes.reflect left (ClassName.qualified target.className) with
  | error cause => exact own
  | ok snapshot =>
      dsimp only [Except.toOption, Option.map_some, revise]
      cases draft? options target (restricted (pending target) snapshot) with
      | none => exact own
      | some text =>
          obtain ⟨found, writable, located, here, entry⟩ := placeOf_of_reflect left target snapshot known
          rw [leads] at here
          cases here
          exact left.entry_overwrite_congr right shape _ place _ writable text located entry own

theorem foldl_step_frame (targets : List ClassTarget) (tree : Tree) :
    (targets.foldl (step options classes) tree).SameShape tree ∧
      ∀ place, (∀ target ∈ targets, placeOf classes tree target ≠ some place) →
        Tree.entry? (targets.foldl (step options classes) tree) place = tree.entry? place := by
  induction targets generalizing tree with
  | nil => exact ⟨fun _ => rfl, fun _ _ => rfl⟩
  | cons target targets ih =>
      obtain ⟨shape, frame⟩ := @step_frame options classes tree target
      obtain ⟨shapes, frames⟩ := ih (step options classes tree target)
      refine ⟨shapes.trans shape, fun place elsewhere => ?_⟩
      rw [List.foldl_cons, frames place, frame place (elsewhere target List.mem_cons_self)]
      intro other member
      rw [placeOf_congr _ tree shape]
      exact elsewhere other (List.mem_cons_of_mem target member)

structure Turn where
  target : ClassTarget
  before : Tree
  after : Tree

def turns (options : Options) (classes : ClassMap) : List ClassTarget → Tree → List Turn
  | [], _ => []
  | target :: rest, tree =>
      ⟨target, tree, step options classes tree target⟩ :: turns options classes rest (step options classes tree target)

theorem mem_turns (before : List ClassTarget) (target : ClassTarget) (rest : List ClassTarget) (tree : Tree) :
    ⟨target, before.foldl (step options classes) tree, (before ++ [target]).foldl (step options classes) tree⟩ ∈
      turns options classes (before ++ target :: rest) tree := by
  induction before generalizing tree with
  | nil => exact List.mem_cons_self
  | cons first before ih => exact List.mem_cons_of_mem _ (ih (step options classes tree first))

def ofPlace (classes : ClassMap) (tree : Tree) (place : Option (List Text)) (targets : List ClassTarget) :
    List ClassTarget :=
  targets.filter fun target => placeOf classes tree target = place

/-- No document that is updated alone changes which pending members of a class of another document its ancestors
declare. -/
def Undisturbed (options : Options) (classes : ClassMap) (targets : List ClassTarget) (tree : Tree) : Prop :=
  ∀ target ∈ targets,
    ∀ turn ∈ turns options classes (ofPlace classes tree (placeOf classes tree target) targets) tree,
      ∀ ancestor ∈ ancestors classes turn.before (ClassName.qualified turn.target.className),
        ∀ other ∈ targets, placeOf classes tree other ≠ placeOf classes tree target →
          ∀ change ∈ turns options classes (ofPlace classes tree (placeOf classes tree other) targets) tree,
            legacy? (pending turn.target) change.after ancestor = legacy? (pending turn.target) tree ancestor

instance (targets : List ClassTarget) (tree : Tree) : Decidable (Undisturbed options classes targets tree) := by
  unfold Undisturbed
  infer_instance

@[simp] theorem ofPlace_append (tree : Tree) (place : Option (List Text)) (left right : List ClassTarget) :
    ofPlace classes tree place (left ++ right) = ofPlace classes tree place left ++ ofPlace classes tree place right :=
  List.filter_append ..

@[simp] theorem mem_ofPlace (tree : Tree) (place : Option (List Text)) (targets : List ClassTarget)
    (target : ClassTarget) :
    target ∈ ofPlace classes tree place targets ↔ target ∈ targets ∧ placeOf classes tree target = place := by
  simp [ofPlace]

/-- What an ancestor hands down depends on the entry that its path leads to. -/
theorem legacy_of_entry (registry : Registry) (left right : Tree) (shape : left.SameShape right) (ancestor : Ancestor)
    (same : ∀ place, right.locate ancestor.path = .ok place → right.entry? place = left.entry? place) :
    legacy? registry right ancestor = legacy? registry left ancestor :=
  legacy_congr registry left right ancestor (right.read_congr left shape.symm ancestor.path same)

/-- Every document is as if it had been updated alone. -/
def Separate (options : Options) (classes : ClassMap) (tree : Tree) (done : List ClassTarget) : Prop :=
  ∀ place, Tree.entry? (done.foldl (step options classes) tree) place =
    Tree.entry? ((ofPlace classes tree (some place) done).foldl (step options classes) tree) place

/-- Updates of another document, as far as they are done, hand down what was handed down at first. -/
theorem legacy_elsewhere (targets done rest : List ClassTarget) (target : ClassTarget) (tree before after : Tree)
    (place other : List Text) (ancestor : Ancestor)
    (kept : ofPlace classes tree (some other) (done ++ rest) = ofPlace classes tree (some other) targets)
    (undisturbed : Undisturbed options classes targets tree) (member : target ∈ targets)
    (leads : placeOf classes tree target = some place)
    (taken : ⟨target, before, after⟩ ∈ turns options classes (ofPlace classes tree (some place) targets) tree)
    (above : ancestor ∈ ancestors classes before (ClassName.qualified target.className)) (apart : other ≠ place) :
    legacy? (pending target) ((ofPlace classes tree (some other) done).foldl (step options classes) tree) ancestor =
      legacy? (pending target) tree ancestor := by
  rw [ofPlace_append] at kept
  rcases List.eq_nil_or_concat (ofPlace classes tree (some other) done) with nothing | ⟨front, last, split⟩
  · rw [nothing]
    rfl
  · rw [split, List.concat_eq_append] at kept ⊢
    have inside : last ∈ ofPlace classes tree (some other) targets := by
      rw [← kept]
      simp
    obtain ⟨among, there⟩ := (mem_ofPlace _ _ _ _).mp inside
    rw [← leads] at taken
    apply undisturbed target member _ taken ancestor above last among (by rw [there, leads]; simpa using apart)
      ⟨last, front.foldl (step options classes) tree, (front ++ [last]).foldl (step options classes) tree⟩
    rw [there, ← kept, List.append_assoc]
    exact mem_turns front last _ tree

section

variable {targets done rest : List ClassTarget} {target : ClassTarget} {tree : Tree} {place : List Text}

private theorem turn_alone (leads : placeOf classes tree target = some place)
    (kept : ofPlace classes tree (some place) (done ++ target :: rest) = ofPlace classes tree (some place) targets) :
    target ∈ targets ∧
      ⟨target, (ofPlace classes tree (some place) done).foldl (step options classes) tree,
          (ofPlace classes tree (some place) done ++ [target]).foldl (step options classes) tree⟩ ∈
        turns options classes (ofPlace classes tree (some place) targets) tree := by
  have next : ofPlace classes tree (some place) (target :: rest) = target :: ofPlace classes tree (some place) rest :=
    List.filter_cons_of_pos (by simpa using leads)
  rw [ofPlace_append, next] at kept
  rw [← kept]
  refine ⟨?_, mem_turns _ target _ tree⟩
  have inside : target ∈ ofPlace classes tree (some place) targets := by
    rw [← kept]
    simp
  exact ((mem_ofPlace _ _ _ _).mp inside).1

/-- The ancestors of the next class hand down what they would if its document were updated alone. -/
theorem legacy_as_alone
    (kept : ∀ place, ofPlace classes tree (some place) (done ++ target :: rest) = ofPlace classes tree (some place) targets)
    (undisturbed : Undisturbed options classes targets tree) (separate : Separate options classes tree done)
    (leads : placeOf classes tree target = some place) (ancestor : Ancestor)
    (above : ancestor ∈ ancestors classes ((ofPlace classes tree (some place) done).foldl (step options classes) tree)
      (ClassName.qualified target.className)) :
    legacy? (pending target) (done.foldl (step options classes) tree) ancestor =
      legacy? (pending target) ((ofPlace classes tree (some place) done).foldl (step options classes) tree) ancestor := by
  obtain ⟨shape, _⟩ := @foldl_step_frame options classes done tree
  obtain ⟨aloneShape, frame⟩ := @foldl_step_frame options classes (ofPlace classes tree (some place) done) tree
  cases located : tree.locate ancestor.path with
  | error cause =>
      apply legacy_of_entry _ _ _ (aloneShape.trans shape.symm)
      intro found there
      rw [shape.locate_eq, located] at there
      cases there
  | ok other =>
      have here (current : Tree) (same : current.SameShape tree) (found : List Text)
          (there : current.locate ancestor.path = .ok found) : found = other := by
        rw [same.locate_eq, located] at there
        exact (Except.ok.inj there).symm
      by_cases inside : other = place
      · -- The ancestor stands in the document itself, which is the same on both sides.
        apply legacy_of_entry _ _ _ (aloneShape.trans shape.symm)
        intro found there
        rw [here _ shape found there, inside]
        exact separate place
      · -- Its document has gone as far as it would have alone, and this one has not touched it.
        obtain ⟨member, taken⟩ := turn_alone leads (kept place)
        obtain ⟨otherShape, _⟩ := @foldl_step_frame options classes (ofPlace classes tree (some other) done) tree
        calc
          legacy? (pending target) (done.foldl (step options classes) tree) ancestor =
              legacy? (pending target) ((ofPlace classes tree (some other) done).foldl (step options classes) tree)
                ancestor := by
            apply legacy_of_entry _ _ _ (otherShape.trans shape.symm)
            intro found there
            rw [here _ shape found there]
            exact separate other
          _ = legacy? (pending target) tree ancestor :=
            legacy_elsewhere targets done (target :: rest) target tree _ _ place other ancestor (kept other) undisturbed
              member leads taken above inside
          _ = legacy? (pending target) ((ofPlace classes tree (some place) done).foldl (step options classes) tree)
                ancestor := by
            symm
            apply legacy_of_entry _ _ _ aloneShape.symm
            intro found there
            rw [here _ aloneShape found there]
            apply frame
            intro own among same
            rw [((mem_ofPlace _ _ _ _).mp among).2] at same
            exact inside (Option.some.inj same).symm

/-- One more update leaves every document as if it had been updated alone. -/
theorem separate_concat
    (kept : ∀ place, ofPlace classes tree (some place) (done ++ target :: rest) = ofPlace classes tree (some place) targets)
    (undisturbed : Undisturbed options classes targets tree) (separate : Separate options classes tree done) :
    Separate options classes tree (done ++ [target]) := by
  intro place
  rw [ofPlace_append, List.foldl_append, List.foldl_append, List.foldl_cons, List.foldl_nil]
  obtain ⟨shape, _⟩ := @foldl_step_frame options classes done tree
  by_cases leads : placeOf classes tree target = some place
  · have own : ofPlace classes tree (some place) [target] = [target] := List.filter_cons_of_pos (by simpa using leads)
    rw [own, List.foldl_cons, List.foldl_nil]
    obtain ⟨aloneShape, _⟩ := @foldl_step_frame options classes (ofPlace classes tree (some place) done) tree
    symm
    apply step_congr _ _ (aloneShape.trans shape.symm) target place
    · rw [placeOf_congr _ tree aloneShape, leads]
    · exact (separate place).symm
    · exact legacy_as_alone kept undisturbed separate leads
  · have elsewhere : ofPlace classes tree (some place) [target] = [] := List.filter_cons_of_neg (by simpa using leads)
    rw [elsewhere, List.foldl_nil]
    rw [← placeOf_congr _ tree shape] at leads
    rw [(step_frame _ target).2 place leads]
    exact separate place

end

/-- A schedule that keeps the order of the targets of each document leaves each document as if it had been
updated alone. -/
theorem separate_of_schedule (targets schedule : List ClassTarget) (tree : Tree)
    (kept : ∀ place, ofPlace classes tree (some place) schedule = ofPlace classes tree (some place) targets)
    (undisturbed : Undisturbed options classes targets tree) : Separate options classes tree schedule := by
  have onward (rest done : List ClassTarget) (whole : done ++ rest = schedule)
      (separate : Separate options classes tree done) : Separate options classes tree schedule := by
    induction rest generalizing done with
    | nil =>
        rw [← whole, List.append_nil]
        exact separate
    | cons target rest ih =>
        apply ih (done ++ [target])
        · rw [← whole, List.append_assoc, List.singleton_append]
        · exact separate_concat (whole ▸ kept) undisturbed separate
  exact onward schedule [] rfl fun _ => rfl

def generated (options : Options) (config : Config) (base : Path) (tree : Tree) : Tree :=
  (runTargets options (config.classMap base) (TargetGroup.schedule (config.classMap base) config.classes) tree).2

theorem runGenerate_tree (flags : List Flag) (call : Call) (tree : Tree) (loaded : Loaded)
    (known : Config.load tree call.folder = .ok loaded) :
    (runGenerate flags call tree).tree =
      generated ⟨flags.contains .reset || loaded.config.reset, flags.contains .overwrite || loaded.config.overwrite,
        !flags.contains .apply⟩ loaded.config (loaded.base call.folder) tree := by
  unfold runGenerate
  rw [known]
  rfl

def located (config : Config) (base : Path) (tree : Tree) (target : ClassTarget) : Option (List Text) :=
  (tree.locate (config.documentPath base target)).toOption

/-- The targets of a document are scheduled in their configured order. -/
theorem ofPlace_schedule (config : Config) (base : Path) (valid : config.fault? = none) (tree : Tree) (place : List Text)
    (targets : List ClassTarget) (among : ∀ target ∈ targets, target ∈ config.classes) :
    ofPlace (config.classMap base) tree (some place) (TargetGroup.schedule (config.classMap base) targets) =
      TargetGroup.schedule (config.classMap base)
        (targets.filter fun target => located config base tree target = some place) := by
  have normal : ∀ target ∈ targets, (TargetGroup.pathOf (config.classMap base) target).normal =
      TargetGroup.pathOf (config.classMap base) target := by
    intro target member
    rw [TargetGroup.pathOf_classMap config base valid target (among target member)]
    exact Path.normal_normal _
  have scheduled := TargetGroup.filter_schedule (fun path => (tree.locate path).toOption = some place) targets normal
  unfold ofPlace placeOf
  rw [scheduled]
  congr 1
  apply List.filter_congr
  intro target member
  unfold located
  rw [TargetGroup.pathOf_classMap config base valid target (among target member)]

/-- The order of a configuration does not show in the documents that it leaves behind, as long as the targets of
each document keep theirs and no document changes which of its pending members a class of another one inherits. -/
theorem generated_of_reordered (options : Options) (config : Config) (base : Path) (tree : Tree)
    (others : List ClassTarget) (valid : config.fault? = none) (reordered : others.Perm config.classes)
    (kept : ∀ place, others.filter (fun target => located config base tree target = some place) =
      config.classes.filter fun target => located config base tree target = some place)
    (undisturbed : Undisturbed options (config.classMap base)
      (TargetGroup.schedule (config.classMap base) config.classes) tree) (place : List Text) :
    Tree.entry? (generated options { config with classes := others } base tree) place =
      Tree.entry? (generated options config base tree) place := by
  obtain ⟨size, paths⟩ := config.classMap_of_perm base others valid reordered
  have steps : step options (Config.classMap { config with classes := others } base) =
      step options (config.classMap base) := by
    funext tree target
    unfold step updaterOf
    rw [ClassMap.reflect_of_paths _ _ size paths]
  have schedules : TargetGroup.schedule (Config.classMap { config with classes := others } base) others =
      TargetGroup.schedule (config.classMap base) others := by
    unfold TargetGroup.schedule TargetGroup.ofTargets TargetGroup.pathOf
    simp only [paths]
  have same (place : List Text) :
      ofPlace (config.classMap base) tree (some place) (TargetGroup.schedule (config.classMap base) others) =
        ofPlace (config.classMap base) tree (some place) (TargetGroup.schedule (config.classMap base) config.classes) := by
    rw [ofPlace_schedule config base valid tree place others fun target member => reordered.mem_iff.mp member,
      ofPlace_schedule config base valid tree place config.classes fun target member => member, kept]
  unfold generated
  rw [runTargets_tree, runTargets_tree, steps, schedules,
    separate_of_schedule _ _ tree same undisturbed place,
    separate_of_schedule _ _ tree (fun _ => rfl) undisturbed place, same]

def familyRoot : Path :=
  ⟨"/".toList⟩

def familyTree : Tree :=
  ⟨[(["Child.php".toList], .document (.text "<?php\nclass Child extends Base\n\x7b\n\x7d\n".toList) true),
    (["Base.php".toList], .document (.text "<?php\nclass Base\n\x7b\n\x7d\n".toList) true)]⟩

def childTarget : ClassTarget :=
  ⟨"Child".toList, "Child.php".toList, [⟨"x".toList, none, true, false, []⟩], [], [], []⟩

def baseTarget (declared : Text) : ClassTarget :=
  ⟨"Base".toList, "Base.php".toList, [⟨"y".toList, none, true, false, []⟩], [],
    [⟨declared, none, none, false, [], .everyone⟩], []⟩

def familyConfig (declared : Text) : Config :=
  ⟨Config.defaultSourceRoot, false, false, [childTarget, baseTarget declared]⟩

theorem kept_family (declared : Text) (place : List Text) :
    [baseTarget declared, childTarget].filter
        (fun target => located (familyConfig declared) familyRoot familyTree target = some place) =
      (familyConfig declared).classes.filter
        fun target => located (familyConfig declared) familyRoot familyTree target = some place := by
  have apart : located (familyConfig []) familyRoot familyTree childTarget ≠
      located (familyConfig []) familyRoot familyTree (baseTarget []) := by
    decide +kernel
  change located (familyConfig declared) familyRoot familyTree childTarget ≠
    located (familyConfig declared) familyRoot familyTree (baseTarget declared) at apart
  change _ = [childTarget, baseTarget declared].filter _
  by_cases here : located (familyConfig declared) familyRoot familyTree childTarget = some place
  · have elsewhere : located (familyConfig declared) familyRoot familyTree (baseTarget declared) ≠ some place :=
      fun there => apart (here.trans there.symm)
    simp [here, elsewhere]
  · simp [List.filter_cons, here]

/-- What the child inherits in addition is none of its own pending members, so both documents are written the same
in either order. -/
theorem generated_of_reordered_family :
    (generated ⟨false, false, false⟩ (familyConfig "z".toList) familyRoot familyTree).read ⟨"/Child.php".toList⟩ =
        .ok "<?php\n/**\n * Class \\Child\n *\n * @property-read $x\n */\nclass Child extends Base\n\x7b\n\x7d\n".toList ∧
      (generated ⟨false, false, false⟩ (familyConfig "z".toList) familyRoot familyTree).read ⟨"/Base.php".toList⟩ =
        .ok ("<?php\n/**\n * Class \\Base\n *\n * @property-read $y\n */\nclass Base\n\x7b\n".toList ++
          "    public $z;\n\n\x7d\n".toList) ∧
      ∀ place,
        Tree.entry? (generated ⟨false, false, false⟩
            { familyConfig "z".toList with classes := [baseTarget "z".toList, childTarget] } familyRoot familyTree) place =
          Tree.entry? (generated ⟨false, false, false⟩ (familyConfig "z".toList) familyRoot familyTree) place :=
  ⟨eq_ok_of_toOption (by decide +kernel), eq_ok_of_toOption (by decide +kernel),
    generated_of_reordered ⟨false, false, false⟩ (familyConfig "z".toList) familyRoot familyTree
      [baseTarget "z".toList, childTarget] (by decide +kernel) (.swap _ _ _) (kept_family _) (by decide +kernel)⟩

/-- A property that the parent is to declare is described in the child if the child comes first, and is taken
for inherited if the parent does. -/
theorem tag_depends_on_order :
    (familyConfig "x".toList).fault? = none ∧
      [baseTarget "x".toList, childTarget].Perm (familyConfig "x".toList).classes ∧
      (∀ place, [baseTarget "x".toList, childTarget].filter
          (fun target => located (familyConfig "x".toList) familyRoot familyTree target = some place) =
        (familyConfig "x".toList).classes.filter
          fun target => located (familyConfig "x".toList) familyRoot familyTree target = some place) ∧
      (generated ⟨false, false, false⟩ (familyConfig "x".toList) familyRoot familyTree).read ⟨"/Child.php".toList⟩ =
        .ok "<?php\n/**\n * Class \\Child\n *\n * @property-read $x\n */\nclass Child extends Base\n\x7b\n\x7d\n".toList ∧
      (generated ⟨false, false, false⟩
          { familyConfig "x".toList with classes := [baseTarget "x".toList, childTarget] } familyRoot familyTree).read
          ⟨"/Child.php".toList⟩ =
        .ok "<?php\n/**\n * Class \\Child\n */\nclass Child extends Base\n\x7b\n\x7d\n".toList :=
  ⟨by decide +kernel, .swap _ _ _, kept_family _, eq_ok_of_toOption (by decide +kernel),
    eq_ok_of_toOption (by decide +kernel)⟩

end MemberDoc.CommandLine
