import MemberDoc.Proofs.EditedSource
import MemberDoc.Proofs.MergedComment
import MemberDoc.Proofs.RegistryHistory
import MemberDoc.Proofs.RepeatedMerge
import MemberDoc.Proofs.VirtualTag

set_option autoImplicit false

/-! Updating a class twice. What the first update writes is read back by the second: the doc block, the
inserted members, and everything that was there before. Without flags the second update has nothing to
do; with a flag set that depends on whether the first one has declared a member that is also virtual. -/

namespace MemberDoc.Updater

open Source Insertion

def forClass (classes : ClassMap) (className : Text) (options : Options) (label : Text) : Updater :=
  ⟨className, options, classes.reflect, label, []⟩

variable {classes : ClassMap} {className : Text} {options : Options} {label : Text} {registry : Registry} {tree : Tree}
  {snapshot : Snapshot}

theorem run_eq (reflected : classes.reflect tree (ClassName.qualified className) = .ok snapshot)
    (instantiable : snapshot.instantiable = true) :
    (forClass classes className options label).run registry tree =
      if contents options registry snapshot = snapshot.source then
        ⟨.ok (.unchanged snapshot.path), registry, tree, [.loading label (ClassName.qualified className)], some snapshot⟩
      else if options.dryRun then
        ⟨.ok (.pending snapshot.path (contents options registry snapshot)), registry, tree,
          [.loading label (ClassName.qualified className)], some snapshot⟩
      else match tree.write snapshot.path (contents options registry snapshot) with
        | .ok after => ⟨.ok (.written snapshot.path), registry, after,
            [.loading label (ClassName.qualified className), .wrote snapshot.path], some snapshot⟩
        | .error reason => ⟨.ok (.writeFailed snapshot.path reason), registry, tree,
            [.loading label (ClassName.qualified className)], some snapshot⟩ := by
  have known : (forClass classes className options label).reflector tree
      (forClass classes className options label).qualifiedName = .ok snapshot := reflected
  unfold run
  rw [known]
  dsimp only
  rw [if_neg (by simp [instantiable])]
  rfl

theorem unchanged_run_iff (reflected : classes.reflect tree (ClassName.qualified className) = .ok snapshot)
    (instantiable : snapshot.instantiable = true) :
    ((forClass classes className options label).run registry tree).result = .ok (.unchanged snapshot.path) ↔
      contents options registry snapshot = snapshot.source := by
  rw [run_eq reflected instantiable]
  split
  · simp [*]
  · split
    · simp [*]
    · split <;> simp [*]

/-- A run that may write leaves the document as it is, writes it, or fails to write it. -/
theorem run_cases (reflected : classes.reflect tree (ClassName.qualified className) = .ok snapshot)
    (instantiable : snapshot.instantiable = true) (writes : options.dryRun = false)
    (succeeds : ∀ reason, ((forClass classes className options label).run registry tree).result ≠
      .ok (.writeFailed snapshot.path reason)) :
    ((forClass classes className options label).run registry tree).registry = registry ∧
      ((contents options registry snapshot = snapshot.source ∧
          ((forClass classes className options label).run registry tree).tree = tree) ∨
        tree.write snapshot.path (contents options registry snapshot) =
          .ok ((forClass classes className options label).run registry tree).tree) := by
  rw [run_eq reflected instantiable] at succeeds ⊢
  split
  · rename_i same
    exact ⟨rfl, .inl ⟨same, rfl⟩⟩
  · rename_i differs
    rw [if_neg differs, writes] at succeeds
    rw [writes]
    simp only [Bool.false_eq_true, if_false] at succeeds ⊢
    cases written : tree.write snapshot.path (contents options registry snapshot) with
    | ok after => exact ⟨rfl, .inr rfl⟩
    | error reason =>
        rw [written] at succeeds
        exact absurd rfl (succeeds reason)

/-- The places of an update are those of the class, its ancestors stand in other documents, and the texts
of the pending members are plain. -/
structure Conditions (classes : ClassMap) (className : Text) (options : Options) (registry : Registry) (tree : Tree)
    (snapshot : Snapshot) (site : Site) : Prop where
  reflected : classes.reflect tree (ClassName.qualified className) = .ok snapshot
  instantiable : snapshot.instantiable = true
  located : site? snapshot.source className = some site
  elsewhere : ∀ path ∈ ClassMap.lineage tree classes.entries.length classes site.parent,
    tree.locate path ≠ tree.locate snapshot.path
  places : Places className snapshot registry (ClassDoc.text snapshot registry options) site
  closed : ∀ tag ∈ (ClassDoc.present snapshot).tags, tag.IsClosed
  plain : registry.IsPlain

@[simp] theorem site_qualified (source className : Text) :
    site? source (ClassName.qualified className) = site? source className := by
  unfold site?
  rw [ClassName.qualified_qualified]

namespace Conditions

variable {site : Site}

theorem located_qualified (conditions : Conditions classes className options registry tree snapshot site) :
    site? snapshot.source (ClassName.qualified (ClassName.qualified className)) = some site := by
  simpa using conditions.located

theorem snapshot_eq (conditions : Conditions classes className options registry tree snapshot site) :
    snapshot = ClassMap.snapshotAt (ClassName.qualified className) snapshot.path snapshot.source site
      (ClassMap.allNames snapshot) := by
  have known := (ClassMap.reflect_site _ _ _ _ _ conditions.reflected conditions.located_qualified).2.2.2
  simpa using known

theorem name_eq (conditions : Conditions classes className options registry tree snapshot site) :
    snapshot.name = ClassName.qualified className :=
  congrArg Snapshot.name conditions.snapshot_eq

theorem docComment_eq (conditions : Conditions classes className options registry tree snapshot site) :
    snapshot.docComment = (site.docComment snapshot.source).map (·.text) :=
  congrArg Snapshot.docComment conditions.snapshot_eq

theorem normal (conditions : Conditions classes className options registry tree snapshot site) :
    (ClassDoc.present snapshot).IsNormal := by
  apply ClassDoc.isNormal_present
  · rw [conditions.name_eq]
    exact List.cons_ne_nil _ _
  · rw [conditions.name_eq]
    exact not_mem_of_site _ _ _ conditions.located '\n' (by decide) rfl rfl rfl
  · rw [conditions.name_eq]
    exact ClassName.endsFirm_qualified className

theorem closed_tags (conditions : Conditions classes className options registry tree snapshot site) :
    ∀ tag ∈ ClassDoc.tags snapshot registry options, tag.IsClosed := by
  intro tag member
  rw [ClassDoc.tags_eq, List.mem_append] at member
  rcases member with isKept | isRendered
  · exact conditions.closed tag (List.mem_filter.mp isKept).1
  · exact conditions.plain.closed_rendered snapshot _ tag isRendered

private theorem isComment (conditions : Conditions classes className options registry tree snapshot site) :
    IsComment (ClassDoc.text snapshot registry options) := by
  obtain ⟨name, comment⟩ := classes.unclosed_of_reflect tree _ snapshot conditions.reflected
  exact isComment_text snapshot registry options name comment
    (fun property pending => (conditions.plain.virtualProperties property pending).source)
    (fun method pending => (conditions.plain.virtualMethods method pending).source)

theorem edited (conditions : Conditions classes className options registry tree snapshot site) :
    ∃ new, site? (contents options registry snapshot) className = some new ∧ new.parent = site.parent ∧
      new.declaration.kind = site.declaration.kind ∧
      (site.declaration.isAbstract = false → new.declaration.isAbstract = false) ∧
      (new.docComment (contents options registry snapshot)).map (·.text) =
        some (ClassDoc.text snapshot registry options) ∧
      ∀ name, (memberNames new.body).Has name ↔ (memberNames site.body).Has name ∨ Adds snapshot registry name :=
  site_of_edit className snapshot registry _ site conditions.located conditions.docComment_eq conditions.places
    conditions.isComment
    (fun property lacking => conditions.plain.declaredProperties property (List.mem_filter.mp lacking).1)
    (fun method lacking => conditions.plain.declaredMethods method (List.mem_filter.mp lacking).1)

end Conditions

theorem hasProperty_iff (snapshot : Snapshot) (name : Text) :
    snapshot.hasProperty name = true ↔ (ClassMap.allNames snapshot).Has (.property name) := by
  unfold Snapshot.hasProperty
  rw [List.contains_iff_mem]
  rfl

theorem hasMethod_iff (snapshot : Snapshot) (name : Text) :
    snapshot.hasMethod name = true ↔
      ∃ own, (ClassMap.allNames snapshot).Has (.method own) ∧ Text.sameName own name = true := by
  unfold Snapshot.hasMethod
  rw [List.any_eq_true]
  rfl

structure Follows (options : Options) (registry : Registry) (snapshot again : Snapshot) : Prop where
  source : again.source = contents options registry snapshot
  path : again.path = snapshot.path
  instantiable : again.instantiable = true
  docComment : again.docComment = some (ClassDoc.text snapshot registry options)
  occurs : ∃ lead tail, again.source = lead ++ ClassDoc.text snapshot registry options ++ tail
  has : ∀ name, (ClassMap.allNames again).Has name ↔
    (ClassMap.allNames snapshot).Has name ∨ Adds snapshot registry name

theorem occurs_of_docComment (source className : Text) (site : Site) (known : site? source className = some site)
    (text : Text) (carries : (site.docComment source).map (·.text) = some text) :
    ∃ lead tail, source = lead ++ text ++ tail := by
  obtain ⟨comment, attached, rfl⟩ := Option.map_eq_some_iff.mp carries
  obtain ⟨lead, opening, tail, cut⟩ := cut_of_site _ _ _ known
  obtain ⟨front, behind, whole, _⟩ := cut.framed comment attached
  exact ⟨front, behind ++ (opening ++ tail), by rw [cut.whole, whole]; simp only [List.append_assoc]⟩

private theorem Conditions.reflect_again {site : Site}
    (conditions : Conditions classes className options registry tree snapshot site) (after : Tree)
    (written : tree.write snapshot.path (contents options registry snapshot) = .ok after) :
    ∃ again, classes.reflect after (ClassName.qualified className) = .ok again ∧ Follows options registry snapshot again := by
  obtain ⟨new, found, parent, kind, concrete, carries, has⟩ := conditions.edited
  have qualified (source : Text) :
      site? source (ClassName.qualified (ClassName.qualified className)) = site? source className := by
    rw [ClassName.qualified_qualified, site_qualified]
  obtain ⟨inherited, all, reflected, hasBefore, hasAll⟩ := ClassMap.reflect_after_write classes tree after _ snapshot site
    new (contents options registry snapshot) conditions.reflected ((qualified _).trans conditions.located)
    conditions.elsewhere written ((qualified _).trans found) parent
  refine ⟨_, reflected, rfl, rfl, ?_, carries, occurs_of_docComment _ _ new found _ carries, fun name => ?_⟩
  · have before : (site.outline snapshot.source).isInstantiable = true := by
      have known := congrArg Snapshot.instantiable conditions.snapshot_eq
      exact known.symm.trans conditions.instantiable
    change (decide (new.declaration.kind = .plain) && !new.declaration.isAbstract) = true
    change (decide (site.declaration.kind = .plain) && !site.declaration.isAbstract) = true at before
    rw [Bool.and_eq_true, Bool.not_eq_true'] at before ⊢
    exact ⟨by rw [kind]; exact before.1, concrete before.2⟩
  · rw [hasBefore]
    exact (hasAll name).trans (by rw [has, or_assoc, or_assoc, or_comm (a := Adds _ _ _)])

namespace Follows

variable {again : Snapshot}

theorem hasProperty (follows : Follows options registry snapshot again) (name : Text) :
    again.hasProperty name = true ↔ snapshot.hasProperty name = true ∨ Adds snapshot registry (.property name) := by
  rw [hasProperty_iff, hasProperty_iff, follows.has]

theorem hasMethod (follows : Follows options registry snapshot again) (name : Text) :
    again.hasMethod name = true ↔ snapshot.hasMethod name = true ∨
      ∃ own, Adds snapshot registry (.method own) ∧ Text.sameName own name = true := by
  rw [hasMethod_iff, hasMethod_iff]
  simp only [follows.has, or_and_right, exists_or]

private theorem missing (follows : Follows options registry snapshot again) :
    missingProperties again registry = [] ∧ missingMethods again registry = [] := by
  constructor
  · apply List.filter_eq_nil_iff.mpr
    intro property pending
    have declared : again.hasProperty property.name = true := by
      rw [follows.hasProperty]
      cases known : snapshot.hasProperty property.name with
      | true => exact .inl rfl
      | false => exact .inr (.inl ⟨property, List.mem_filter.mpr ⟨pending, by rw [known]; rfl⟩, rfl⟩)
    simp [declared]
  · apply List.filter_eq_nil_iff.mpr
    intro method pending
    have declared : again.hasMethod method.name = true := by
      rw [follows.hasMethod]
      cases known : snapshot.hasMethod method.name with
      | true => exact .inl rfl
      | false =>
          refine .inr ⟨method.name, .inr ⟨method, List.mem_filter.mpr ⟨pending, by rw [known]; rfl⟩, rfl⟩, ?_⟩
          simp [Text.sameName]
    simp [declared]

theorem contents_eq_iff (follows : Follows options registry snapshot again) :
    contents options registry again = again.source ↔
      ClassDoc.text again registry options = ClassDoc.text snapshot registry options := by
  obtain ⟨noProperties, noMethods⟩ := follows.missing
  have placed : contents options registry again =
      Text.replaceFirst (ClassDoc.text snapshot registry options) (ClassDoc.text again registry options) again.source := by
    unfold contents edit
    dsimp only
    rw [noProperties, noMethods, follows.docComment]
    rfl
  rw [placed]
  constructor
  · intro same
    obtain ⟨lead, tail, occurs⟩ := follows.occurs
    obtain ⟨⟨before, rest⟩, found⟩ := Text.splitFirst_isSome (ClassDoc.text snapshot registry options) lead tail
    rw [← occurs] at found
    have whole := Text.splitFirst_append _ _ _ _ found
    unfold Text.replaceFirst at same
    rw [found] at same
    dsimp only at same
    rw [whole] at same
    exact List.append_cancel_left (List.append_cancel_right same)
  · intro same
    rw [same, Text.replaceFirst_self]

end Follows

/-- A document that an update leaves as it is shows all that the update would add. -/
theorem Conditions.follows_self {site : Site}
    (conditions : Conditions classes className options registry tree snapshot site)
    (same : contents options registry snapshot = snapshot.source) : Follows options registry snapshot snapshot := by
  obtain ⟨new, found, _, _, _, carries, has⟩ := conditions.edited
  rw [same] at found carries
  have here : new = site := Option.some.inj (found.symm.trans conditions.located)
  subst here
  have above := (ClassMap.reflect_site _ _ _ _ _ conditions.reflected conditions.located_qualified).2.2.1
  obtain ⟨inherited, spread⟩ := ClassMap.has_inherit _ _ _ _ _ _ above
  obtain ⟨all, collected, hasAll⟩ := spread (memberNames new.body)
  have whole : all = ClassMap.allNames snapshot := Except.ok.inj (collected.symm.trans above)
  subst whole
  refine ⟨same.symm, rfl, conditions.instantiable, conditions.docComment_eq.trans carries,
    occurs_of_docComment _ _ new found _ carries, fun name => ⟨.inl, fun shown => ?_⟩⟩
  rcases shown with old | added
  · exact old
  · exact (hasAll name).mpr (.inl ((has name).mpr (.inr added)))

private theorem Conditions.follows_run {site : Site}
    (conditions : Conditions classes className options registry tree snapshot site) (writes : options.dryRun = false)
    (succeeds : ∀ reason, ((forClass classes className options label).run registry tree).result ≠
      .ok (.writeFailed snapshot.path reason)) :
    ∃ again, classes.reflect ((forClass classes className options label).run registry tree).tree
        (ClassName.qualified className) = .ok again ∧ Follows options registry snapshot again := by
  obtain ⟨_, ⟨same, kept⟩ | written⟩ := run_cases conditions.reflected conditions.instantiable writes succeeds
  · rw [kept]
    exact ⟨snapshot, conditions.reflected, conditions.follows_self same⟩
  · exact conditions.reflect_again _ written

/-- The second run has nothing to do exactly if it merges the block that the first has merged. -/
theorem Conditions.unchanged_again_iff {site : Site}
    (conditions : Conditions classes className options registry tree snapshot site) (writes : options.dryRun = false)
    (succeeds : ∀ reason, ((forClass classes className options label).run registry tree).result ≠
      .ok (.writeFailed snapshot.path reason)) :
    ∃ again, Follows options registry snapshot again ∧
      (((forClass classes className options label).run
          ((forClass classes className options label).run registry tree).registry
          ((forClass classes className options label).run registry tree).tree).result = .ok (.unchanged snapshot.path) ↔
        ClassDoc.text again registry options = ClassDoc.text snapshot registry options) := by
  obtain ⟨again, reflected, follows⟩ := conditions.follows_run writes succeeds
  have kept := (run_cases conditions.reflected conditions.instantiable writes succeeds).1
  refine ⟨again, follows, ?_⟩
  rw [kept, ← follows.path, unchanged_run_iff reflected follows.instantiable, follows.contents_eq_iff]

def accountSource : Text :=
  "<?php\nclass Account extends Model\n\x7b\n    public $id;\n\x7d\n".toList

def accountTree : Tree :=
  ⟨[(["Account.php".toList], .document (.text accountSource) true),
    (["Model.php".toList], .document (.text "<?php\nclass Model\n\x7b\n    function save() \x7b\x7d\n\x7d\n".toList) true)]⟩

def accountClasses : ClassMap :=
  (ClassMap.empty.insert "Account".toList ⟨"/Account.php".toList⟩).insert "Model".toList ⟨"/Model.php".toList⟩

def account : Snapshot :=
  ⟨"\\Account".toList, true, ["id".toList], ["save".toList], none, accountSource, ⟨"/Account.php".toList⟩⟩

def accountSite : Site :=
  (site? accountSource "Account".toList).get (by decide +kernel)

def bodyOpensAt (source className : Text) : Bool :=
  match splitBodyOpen? source, site? source className with
  | some (lead, _), some site => Text.byteLength lead = site.bodyOffset
  | _, _ => false

private theorem exists_bodyOpen (source className : Text) (opened : bodyOpensAt source className = true) :
    ∃ lead tail site, splitBodyOpen? source = some (lead, tail) ∧ site? source className = some site ∧
      Text.byteLength lead = site.bodyOffset := by
  unfold bodyOpensAt at opened
  split at opened
  · rename_i lead tail site parts located
    exact ⟨lead, tail, site, parts, located, of_decide_eq_true opened⟩
  · cases opened

theorem conditions_account (options : Options) (registry : Registry)
    (opened : bodyOpensAt (placeBlock account.source account.docComment (ClassDoc.text account registry options)
      account.shortName) "Account".toList = true)
    (plain : registry.IsPlain) :
    Conditions accountClasses "Account".toList options registry accountTree account accountSite where
  reflected := eq_ok_of_toOption (by decide +kernel)
  instantiable := rfl
  located := by decide +kernel
  elsewhere := by
    have above : ClassMap.lineage accountTree accountClasses.entries.length accountClasses accountSite.parent =
        [⟨"/Model.php".toList⟩] := by
      decide +kernel
    intro path member same
    rw [above, List.mem_singleton] at member
    subst member
    have places := congrArg Except.toOption same
    revert places
    decide +kernel
  places :=
    { comment := ⟨"<?php\n".toList, " extends Model\n\x7b\n    public $id;\n\x7d\n".toList, by decide +kernel,
        by decide +kernel, by decide⟩
      properties := fun _ => exists_bodyOpen _ _ opened
      methods := fun _ => ⟨"<?php\nclass Account extends Model\n\x7b\n    public $id;\n".toList, "\n".toList,
        by decide +kernel, by decide +kernel, .inr (.inl (by decide +kernel))⟩ }
  closed := by decide +kernel
  plain

def virtualX : VirtualProperty :=
  ⟨"x".toList, some "int".toList, true, true, "A coordinate.".toList⟩

def declaredNamed (name : Text) : DeclaredProperty :=
  ⟨name, none, none, false, [], .everyone⟩

def declaredTouch : DeclaredMethod :=
  ⟨"touch".toList, false, [], none, [], .everyone, "return true;".toList⟩

def accountRequests (name : Text) : List Registry.Request :=
  [.virtualProperty virtualX, .declaredProperty (declaredNamed name), .declaredMethod declaredTouch]

theorem isPlain_accountRequests (name : Text) (isName : Text.IsAsciiName name)
    (notConst : Text.lower name ≠ "const".toList) : (Registry.empty.addAll (accountRequests name)).IsPlain where
  virtualProperties property member := by
    rw [show property = virtualX from List.mem_singleton.mp member]
    constructor
    · decide
    · intro type known
      cases known
      decide
    · decide +kernel
    · intro tag made
      have closed : virtualX.tag?.all (fun tag => decide tag.IsClosed) = true := by decide +kernel
      rw [made] at closed
      exact of_decide_eq_true closed
  virtualMethods method member := by cases member
  declaredProperties property member := by
    rw [show property = declaredNamed name from List.mem_singleton.mp member]
    exact ⟨isName, notConst, (by decide : Unclosed []), fun _ known => (by cases known), fun _ known => (by cases known)⟩
  declaredMethods method member := by
    rw [show method = declaredTouch from List.mem_singleton.mp member]
    exact ⟨by decide, by decide, by decide +kernel, fun _ known => (by cases known), by decide +kernel, by decide +kernel⟩

theorem not_writeFailed_of_written {path : Path} {result : Except ReflectError Outcome}
    (written : result.toOption = some (.written path)) (reason : AccessError) :
    result ≠ .ok (.writeFailed path reason) := by
  intro failed
  rw [failed] at written
  cases written

/-- Without flags an update that has been written is complete: the second run has nothing to do. -/
theorem unchanged_after_run (classes : ClassMap) (className : Text) (options : Options) (label : Text)
    (registry : Registry) (tree : Tree) (snapshot : Snapshot) (site : Site)
    (conditions : Conditions classes className options registry tree snapshot site)
    (keepsAll : options.reset = false) (keepsNamed : options.overwrite = false) (writes : options.dryRun = false)
    (succeeds : ∀ reason, ((forClass classes className options label).run registry tree).result ≠
      .ok (.writeFailed snapshot.path reason)) :
    ((forClass classes className options label).run
        ((forClass classes className options label).run registry tree).registry
        ((forClass classes className options label).run registry tree).tree).result =
      .ok (.unchanged snapshot.path) := by
  obtain ⟨again, follows, unchanged⟩ := conditions.unchanged_again_iff writes succeeds
  apply unchanged.mpr
  exact ClassDoc.text_again_unflagged snapshot again registry options conditions.normal conditions.closed_tags
    conditions.plain.names keepsAll keepsNamed follows.docComment
    (fun name declared => (follows.hasProperty name).mpr (.inl declared))
    (fun name declared => (follows.hasMethod name).mpr (.inl declared))

theorem unchanged_after_run_account :
    ((forClass accountClasses "Account".toList ⟨false, false, false⟩ "class".toList).run
        ((forClass accountClasses "Account".toList ⟨false, false, false⟩ "class".toList).run
          (Registry.empty.addAll (accountRequests "x".toList)) accountTree).registry
        ((forClass accountClasses "Account".toList ⟨false, false, false⟩ "class".toList).run
          (Registry.empty.addAll (accountRequests "x".toList)) accountTree).tree).result =
      .ok (.unchanged account.path) :=
  unchanged_after_run _ _ _ _ _ _ account accountSite
    (conditions_account _ _ (by decide +kernel) (isPlain_accountRequests _ (by decide) (by decide))) rfl rfl rfl
    (not_writeFailed_of_written (by decide +kernel))

private theorem not_adds_virtualMethod (apart : registry.MethodsApart) (method : VirtualMethod)
    (pending : method ∈ registry.virtualMethods) (own : Text) (added : Adds snapshot registry (.method own)) :
    Text.sameName own method.name = false := by
  rcases added with ⟨property, _, declares⟩ | ⟨declared, lacking, declares⟩
  · exact declares.elim
  · have differs := apart method pending declared (List.mem_filter.mp lacking).1
    have named : own = declared.name := declares
    rw [named, ClassDoc.sameName_comm]
    exact differs

/-- With a flag set the second run has nothing to do exactly if the first has not declared a property that
it has also described as virtual. -/
theorem unchanged_after_flagged_run_iff (classes : ClassMap) (className : Text) (options : Options) (label : Text)
    (requests : List Registry.Request) (tree : Tree) (snapshot : Snapshot) (site : Site)
    (conditions : Conditions classes className options (Registry.empty.addAll requests) tree snapshot site)
    (flagged : options.reset = true ∨ options.overwrite = true) (writes : options.dryRun = false)
    (succeeds : ∀ reason, ((forClass classes className options label).run (Registry.empty.addAll requests) tree).result ≠
      .ok (.writeFailed snapshot.path reason)) :
    ((forClass classes className options label).run
        ((forClass classes className options label).run (Registry.empty.addAll requests) tree).registry
        ((forClass classes className options label).run (Registry.empty.addAll requests) tree).tree).result =
      .ok (.unchanged snapshot.path) ↔
    ∀ property ∈ (Registry.empty.addAll requests).virtualProperties, snapshot.hasProperty property.name = false →
      ¬ Adds snapshot (Registry.empty.addAll requests) (.property property.name) := by
  obtain ⟨again, follows, unchanged⟩ := conditions.unchanged_again_iff writes succeeds
  have apart := Registry.methodsApart_addAll requests
  rw [unchanged, ClassDoc.text_again_flagged_iff snapshot again _ options conditions.normal conditions.closed_tags
    conditions.plain.names (conditions.plain.closed_rendered again _) flagged follows.docComment
    (fun name declared => (follows.hasProperty name).mpr (.inl declared))
    (fun name declared => (follows.hasMethod name).mpr (.inl declared))]
  constructor
  · intro stable property pending absent added
    have now := (follows.hasProperty property.name).mpr (.inr added)
    rw [stable.1 property pending, absent] at now
    cases now
  · intro clear
    constructor
    · intro property pending
      apply Bool.eq_iff_iff.mpr
      rw [follows.hasProperty]
      refine ⟨fun shown => ?_, .inl⟩
      rcases shown with old | added
      · exact old
      · cases known : snapshot.hasProperty property.name with
        | true => rfl
        | false => exact absurd added (clear property pending known)
    · intro method pending
      apply Bool.eq_iff_iff.mpr
      rw [follows.hasMethod]
      refine ⟨fun shown => ?_, .inl⟩
      rcases shown with old | ⟨own, added, same⟩
      · exact old
      · rw [not_adds_virtualMethod apart method pending own added] at same
        cases same

theorem unchanged_after_flagged_run_iff_account :
    ((forClass accountClasses "Account".toList ⟨true, false, false⟩ "class".toList).run
        ((forClass accountClasses "Account".toList ⟨true, false, false⟩ "class".toList).run
          (Registry.empty.addAll (accountRequests "y".toList)) accountTree).registry
        ((forClass accountClasses "Account".toList ⟨true, false, false⟩ "class".toList).run
          (Registry.empty.addAll (accountRequests "y".toList)) accountTree).tree).result =
      .ok (.unchanged account.path) := by
  apply (unchanged_after_flagged_run_iff _ _ _ _ _ _ account accountSite
    (conditions_account _ _ (by decide +kernel) (isPlain_accountRequests _ (by decide) (by decide))) (.inl rfl) rfl
    (not_writeFailed_of_written (by decide +kernel))).mpr
  intro property pending _ added
  rw [show property = virtualX from List.mem_singleton.mp pending] at added
  rcases added with ⟨declared, lacking, declares⟩ | ⟨method, lacking, declares⟩
  · rw [show declared = declaredNamed "y".toList from List.mem_singleton.mp (List.mem_filter.mp lacking).1] at declares
    exact absurd declares (by decide : ¬ "x".toList = "y".toList)
  · rw [show method = declaredTouch from List.mem_singleton.mp (List.mem_filter.mp lacking).1] at declares
    exact absurd declares (by decide : ¬ "x".toList ∈ declaredTouch.promoted)

/-- A property that is virtual and declared is described by the first run and no longer by the second. -/
theorem written_again_account :
    Conditions accountClasses "Account".toList ⟨true, false, false⟩
        (Registry.empty.addAll (accountRequests "x".toList)) accountTree account accountSite ∧
      ((forClass accountClasses "Account".toList ⟨true, false, false⟩ "class".toList).run
          ((forClass accountClasses "Account".toList ⟨true, false, false⟩ "class".toList).run
            (Registry.empty.addAll (accountRequests "x".toList)) accountTree).registry
          ((forClass accountClasses "Account".toList ⟨true, false, false⟩ "class".toList).run
            (Registry.empty.addAll (accountRequests "x".toList)) accountTree).tree).result =
        .ok (.written account.path) :=
  ⟨conditions_account _ _ (by decide +kernel) (isPlain_accountRequests _ (by decide) (by decide)),
    eq_ok_of_toOption (by decide +kernel)⟩

end MemberDoc.Updater
