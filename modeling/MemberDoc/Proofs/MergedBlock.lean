import MemberDoc.ClassDoc
import MemberDoc.Proofs.BlockText
import MemberDoc.Proofs.MemberTag
import MemberDoc.Proofs.TagOrder

set_option autoImplicit false

/-! The merged doc block of a class: what it says when it is read back, and what becomes of it when
it is merged once more. -/

namespace MemberDoc.ClassDoc

def kept (snapshot : Snapshot) (registry : Registry) (options : Options) : List Tag :=
  (present snapshot).tags.filter (survives registry options)

/-- Pending virtual properties that neither a tag nor the class accounts for. -/
def openProperties (snapshot : Snapshot) (registry : Registry) (tags : List Tag) : List VirtualProperty :=
  registry.virtualProperties.filter fun property =>
    !tags.any (describesProperty property.name) && !snapshot.hasProperty property.name

def openMethods (snapshot : Snapshot) (registry : Registry) (tags : List Tag) : List VirtualMethod :=
  registry.virtualMethods.filter fun method =>
    !tags.any (describesMethod method.name) && !snapshot.hasMethod method.name

def rendered (snapshot : Snapshot) (registry : Registry) (tags : List Tag) : List Tag :=
  (openProperties snapshot registry tags).filterMap VirtualProperty.tag? ++
    (openMethods snapshot registry tags).filterMap VirtualMethod.tag?

theorem tags_eq (snapshot : Snapshot) (registry : Registry) (options : Options) :
    tags snapshot registry options =
      kept snapshot registry options ++ rendered snapshot registry (kept snapshot registry options) :=
  List.append_assoc _ _ _

theorem describesProperty_iff (name : Text) (tag : Tag) : describesProperty name tag = true ↔ tag.kind = .property name := by
  unfold describesProperty
  cases tag.kind <;> simp

theorem describesMethod_iff (name : Text) (tag : Tag) :
    describesMethod name tag = true ↔
      ∃ described isStatic, tag.kind = .method described isStatic ∧ Text.sameName described name = true := by
  unfold describesMethod
  cases tag.kind <;> simp

theorem rendered_of_perm (snapshot : Snapshot) (registry : Registry) (left right : List Tag)
    (perm : left.Perm right) : rendered snapshot registry left = rendered snapshot registry right := by
  simp only [rendered, openProperties, openMethods, perm.any_eq]

private theorem isSummaryText_default (snapshot : Snapshot) (named : snapshot.name ≠ [])
    (unbroken : '\n' ∉ snapshot.name) (firm : Text.EndsFirm snapshot.name) :
    DocBlock.IsSummaryText ("Class ".toList ++ snapshot.name) := by
  refine ⟨rfl, ?_, Text.endsFirm_append _ _ named firm⟩
  rw [List.mem_append]
  rintro (inWord | inName)
  · revert inWord
    decide
  · exact unbroken inName

theorem isNormal_present (snapshot : Snapshot) (named : snapshot.name ≠ [])
    (unbroken : '\n' ∉ snapshot.name) (firm : Text.EndsFirm snapshot.name) :
    (present snapshot).IsNormal := by
  have fallback : DocBlock.IsNormal ⟨"Class ".toList ++ snapshot.name, []⟩ := by
    refine ⟨⟨["Class ".toList ++ snapshot.name], (Text.joinWith_singleton _ _).symm, ?_⟩, ?_⟩
    · intro line member
      rw [List.mem_singleton.mp member]
      exact isSummaryText_default snapshot named unbroken firm
    · intro tag member
      cases member
  unfold present
  cases comment : snapshot.docComment with
  | none => exact fallback
  | some text =>
      rw [Option.map_some]
      cases parsed : DocBlock.parse text with
      | error failure => exact fallback
      | ok block => exact DocBlock.isNormal_of_parse text block parsed

private theorem isNormal_rendered (snapshot : Snapshot) (registry : Registry) (tags : List Tag) :
    ∀ tag ∈ rendered snapshot registry tags, tag.IsNormal := by
  intro tag member
  rcases List.mem_append.mp member with inProperties | inMethods
  · obtain ⟨property, _, parsed⟩ := List.mem_filterMap.mp inProperties
    exact Tag.isNormal_of_parse _ tag parsed
  · obtain ⟨method, _, parsed⟩ := List.mem_filterMap.mp inMethods
    exact Tag.isNormal_of_parse _ tag parsed

theorem isNormal_tags_of_present (snapshot : Snapshot) (registry : Registry) (options : Options)
    (normal : ∀ tag ∈ (present snapshot).tags, tag.IsNormal) :
    ∀ tag ∈ tags snapshot registry options, tag.IsNormal := by
  intro tag member
  rw [tags_eq, List.mem_append] at member
  rcases member with isKept | isRendered
  · exact normal tag (List.mem_filter.mp isKept).1
  · exact isNormal_rendered snapshot registry _ tag isRendered

theorem isNormal_tags (snapshot : Snapshot) (registry : Registry) (options : Options)
    (normal : (present snapshot).IsNormal) :
    ∀ tag ∈ tags snapshot registry options, tag.IsNormal :=
  isNormal_tags_of_present snapshot registry options normal.tags

theorem parse_text (snapshot : Snapshot) (registry : Registry) (options : Options)
    (normal : (present snapshot).IsNormal)
    (closed : ∀ tag ∈ tags snapshot registry options, tag.IsClosed) :
    DocBlock.parse (text snapshot registry options) =
      .ok ⟨(present snapshot).summary, Tag.sort (tags snapshot registry options)⟩ := by
  have blockNormal : DocBlock.IsNormal
      ⟨(present snapshot).summary, Tag.sort (tags snapshot registry options)⟩ := by
    refine ⟨normal.summary, ?_⟩
    intro tag member
    exact isNormal_tags snapshot registry options normal tag ((Tag.mem_sort _ tag).mp member)
  apply blockNormal.parse_serialize
  intro tag member
  exact closed tag ((Tag.mem_sort _ tag).mp member)

/-- The tags of a merged block name the members they were made for. -/
structure Names (registry : Registry) : Prop where
  properties : ∀ property ∈ registry.virtualProperties, ∀ tag, property.tag? = some tag →
    tag.kind = .property property.name
  methods : ∀ method ∈ registry.virtualMethods, ∀ tag, method.tag? = some tag →
    ∃ name isStatic, tag.kind = .method name isStatic ∧ Text.sameName name method.name = true

theorem present_of_text (before after : Snapshot) (registry : Registry) (options : Options)
    (normal : (present before).IsNormal)
    (closed : ∀ tag ∈ tags before registry options, tag.IsClosed)
    (comment : after.docComment = some (text before registry options)) :
    present after = ⟨(present before).summary, Tag.sort (tags before registry options)⟩ := by
  unfold present
  rw [comment, Option.map_some, parse_text before registry options normal closed]
  rfl

theorem survives_without_flags (registry : Registry) (options : Options) (tag : Tag)
    (keepsAll : options.reset = false) (keepsNamed : options.overwrite = false) :
    survives registry options tag = true := by
  unfold survives
  rw [keepsAll, keepsNamed]
  cases tag.kind <;> rfl

theorem sameName_comm (left right : Text) : Text.sameName left right = Text.sameName right left := by
  unfold Text.sameName
  exact Bool.beq_comm

/-- With a flag set, a new tag does not outlive the run in which it was made. -/
theorem not_survives_rendered (snapshot : Snapshot) (registry : Registry) (options : Options)
    (existing : List Tag) (names : Names registry)
    (flagged : options.reset = true ∨ options.overwrite = true) :
    ∀ tag ∈ rendered snapshot registry existing, survives registry options tag = false := by
  intro tag member
  rcases List.mem_append.mp member with inProperties | inMethods
  · obtain ⟨property, isOpen, parsed⟩ := List.mem_filterMap.mp inProperties
    have present := (List.mem_filter.mp isOpen).1
    have found : (registry.virtualProperty? property.name).isSome = true := by
      unfold Registry.virtualProperty?
      rw [List.find?_isSome]
      exact ⟨property, present, beq_self_eq_true property.name⟩
    unfold survives
    rw [names.properties property present tag parsed]
    dsimp only
    rcases flagged with reset | overwrite
    · rw [reset]
      rfl
    · rw [overwrite, found]
      exact Bool.and_false _
  · obtain ⟨method, isOpen, parsed⟩ := List.mem_filterMap.mp inMethods
    have present := (List.mem_filter.mp isOpen).1
    obtain ⟨name, isStatic, kind, same⟩ := names.methods method present tag parsed
    have found : (registry.virtualMethod? name).isSome = true := by
      unfold Registry.virtualMethod?
      rw [List.find?_isSome]
      exact ⟨method, present, (sameName_comm method.name name).trans same⟩
    unfold survives
    rw [kind]
    dsimp only
    rcases flagged with reset | overwrite
    · rw [reset]
      rfl
    · rw [overwrite, found]
      exact Bool.and_false _

/-- With a flag set, a second merge keeps exactly the tags that the first one kept. -/
theorem kept_again (before after : Snapshot) (registry : Registry) (options : Options)
    (names : Names registry) (flagged : options.reset = true ∨ options.overwrite = true)
    (merged : (present after).tags = Tag.sort (tags before registry options)) :
    (kept after registry options).Perm (kept before registry options) := by
  have keptTwice : (kept before registry options).filter (survives registry options) =
      kept before registry options := by
    unfold kept
    rw [List.filter_filter]
    simp only [Bool.and_self]
  have noneRendered :
      (rendered before registry (kept before registry options)).filter (survives registry options) = [] := by
    apply List.filter_eq_nil_iff.mpr
    intro tag member
    rw [not_survives_rendered before registry options _ names flagged tag member]
    exact Bool.false_ne_true
  have sorted := (Tag.sort_perm (tags before registry options)).filter (survives registry options)
  rw [← merged, tags_eq, List.filter_append, keptTwice, noneRendered, List.append_nil] at sorted
  exact sorted

theorem tags_again_flagged (before after : Snapshot) (registry : Registry) (options : Options)
    (names : Names registry) (flagged : options.reset = true ∨ options.overwrite = true)
    (merged : (present after).tags = Tag.sort (tags before registry options)) :
    (tags after registry options).Perm
      (kept before registry options ++ rendered after registry (kept before registry options)) := by
  have same := kept_again before after registry options names flagged merged
  rw [tags_eq, rendered_of_perm after registry _ _ same]
  exact same.append_right _

private theorem describes_open_property (snapshot : Snapshot) (registry : Registry) (existing : List Tag)
    (names : Names registry) (property : VirtualProperty) (tag : Tag)
    (isOpen : property ∈ openProperties snapshot registry existing) (parsed : property.tag? = some tag) :
    tag ∈ rendered snapshot registry existing ∧ describesProperty property.name tag = true := by
  constructor
  · exact List.mem_append_left _ (List.mem_filterMap.mpr ⟨property, isOpen, parsed⟩)
  · exact (describesProperty_iff _ _).mpr (names.properties property (List.mem_filter.mp isOpen).1 tag parsed)

private theorem describes_open_method (snapshot : Snapshot) (registry : Registry) (existing : List Tag)
    (names : Names registry) (method : VirtualMethod) (tag : Tag)
    (isOpen : method ∈ openMethods snapshot registry existing) (parsed : method.tag? = some tag) :
    tag ∈ rendered snapshot registry existing ∧ describesMethod method.name tag = true := by
  constructor
  · exact List.mem_append_right _ (List.mem_filterMap.mpr ⟨method, isOpen, parsed⟩)
  · exact (describesMethod_iff _ _).mpr (names.methods method (List.mem_filter.mp isOpen).1 tag parsed)

/-- Nothing is open beside tags that account for all that was open beside some of them. -/
theorem filter_open_eq_nil {Member : Type} (members : List Member) (describes : Member → Tag → Bool)
    (declaredBefore declaredAfter : Member → Bool) (early all : List Tag)
    (included : ∀ tag ∈ early, tag ∈ all)
    (stays : ∀ member ∈ members, declaredBefore member = true → declaredAfter member = true)
    (covered : ∀ member ∈ members, (!early.any (describes member) && !declaredBefore member) = true →
      ∃ tag ∈ all, describes member tag = true) :
    (members.filter fun member => !all.any (describes member) && !declaredAfter member) = [] := by
  apply List.filter_eq_nil_iff.mpr
  intro member pending isOpen
  rw [Bool.and_eq_true, Bool.not_eq_true', Bool.not_eq_true'] at isOpen
  obtain ⟨undescribed, undeclared⟩ := isOpen
  have nowhere (tag : Tag) (inAll : tag ∈ all) : describes member tag = false := by
    have silent := List.any_eq_false.mp undescribed tag inAll
    simpa using silent
  have undeclaredBefore : declaredBefore member = false := by
    cases declared : declaredBefore member with
    | false => rfl
    | true => rw [stays member pending declared] at undeclared; cases undeclared
  have undescribedBefore : early.any (describes member) = false := by
    apply List.any_eq_false.mpr
    intro tag present
    rw [nowhere tag (included tag present)]
    exact Bool.false_ne_true
  obtain ⟨tag, inAll, describesIt⟩ := covered member pending (by
    rw [undescribedBefore, undeclaredBefore]
    rfl)
  rw [nowhere tag inAll] at describesIt
  cases describesIt

/-- Without flags, a second merge finds every pending member accounted for. -/
theorem tags_again_unflagged (before after : Snapshot) (registry : Registry) (options : Options)
    (names : Names registry) (keepsAll : options.reset = false) (keepsNamed : options.overwrite = false)
    (merged : (present after).tags = Tag.sort (tags before registry options))
    (properties : ∀ name, before.hasProperty name = true → after.hasProperty name = true)
    (methods : ∀ name, before.hasMethod name = true → after.hasMethod name = true) :
    tags after registry options = Tag.sort (tags before registry options) := by
  have allKept : kept after registry options = Tag.sort (tags before registry options) := by
    unfold kept
    rw [merged]
    apply List.filter_eq_self.mpr
    intro tag _
    exact survives_without_flags registry options tag keepsAll keepsNamed
  have keptIncluded : ∀ tag ∈ kept before registry options, tag ∈ Tag.sort (tags before registry options) := by
    intro tag member
    rw [Tag.mem_sort, tags_eq]
    exact List.mem_append_left _ member
  have renderedIncluded : ∀ tag ∈ rendered before registry (kept before registry options),
      tag ∈ Tag.sort (tags before registry options) := by
    intro tag member
    rw [Tag.mem_sort, tags_eq]
    exact List.mem_append_right _ member
  have noProperties : openProperties after registry (Tag.sort (tags before registry options)) = [] := by
    apply filter_open_eq_nil registry.virtualProperties (fun property => describesProperty property.name)
      (fun property => before.hasProperty property.name) (fun property => after.hasProperty property.name)
      (kept before registry options) _ keptIncluded
    · intro property _ declared
      exact properties property.name declared
    · intro property pending wasOpen
      obtain ⟨tag, parsed⟩ := property.tag_isSome
      obtain ⟨isRendered, describes⟩ := describes_open_property before registry _ names property tag
        (List.mem_filter.mpr ⟨pending, wasOpen⟩) parsed
      exact ⟨tag, renderedIncluded tag isRendered, describes⟩
  have noMethods : openMethods after registry (Tag.sort (tags before registry options)) = [] := by
    apply filter_open_eq_nil registry.virtualMethods (fun method => describesMethod method.name)
      (fun method => before.hasMethod method.name) (fun method => after.hasMethod method.name)
      (kept before registry options) _ keptIncluded
    · intro method _ declared
      exact methods method.name declared
    · intro method pending wasOpen
      obtain ⟨tag, parsed⟩ := method.tag_isSome
      obtain ⟨isRendered, describes⟩ := describes_open_method before registry _ names method tag
        (List.mem_filter.mpr ⟨pending, wasOpen⟩) parsed
      exact ⟨tag, renderedIncluded tag isRendered, describes⟩
  rw [tags_eq, allKept]
  unfold rendered
  rw [noProperties, noMethods]
  exact List.append_nil _

/-- A merged block is its own merge: the block that a merge gives does not change when the same
members are merged into it under the same options. -/
theorem text_of_merged (snapshot : Snapshot) (registry : Registry) (options : Options)
    (named : snapshot.name ≠ []) (unbroken : '\n' ∉ snapshot.name) (firm : Text.EndsFirm snapshot.name)
    (names : Names registry) (closed : ∀ tag ∈ tags snapshot registry options, tag.IsClosed) :
    text { snapshot with docComment := some (text snapshot registry options) } registry options =
      text snapshot registry options := by
  have normal := isNormal_present snapshot named unbroken firm
  have allNormal := isNormal_tags snapshot registry options normal
  have merged := present_of_text snapshot
    { snapshot with docComment := some (text snapshot registry options) } registry options normal closed rfl
  have mergedTags := congrArg DocBlock.tags merged
  have sorted :
      Tag.sort (tags { snapshot with docComment := some (text snapshot registry options) } registry options) =
        Tag.sort (tags snapshot registry options) := by
    by_cases flagged : options.reset = true ∨ options.overwrite = true
    · apply Eq.symm
      apply Tag.sort_eq_of_perm _ _ allNormal
      rw [tags_eq snapshot registry options]
      exact (tags_again_flagged snapshot _ registry options names flagged mergedTags).symm
    · rw [not_or, Bool.not_eq_true, Bool.not_eq_true] at flagged
      rw [tags_again_unflagged snapshot _ registry options names flagged.1 flagged.2 mergedTags
        (fun _ declared => declared) (fun _ declared => declared)]
      exact Tag.sort_sort _ allNormal
  change DocBlock.serialize ⟨(present _).summary, Tag.sort (tags _ registry options)⟩ = _
  rw [sorted, merged]
  rfl

def documentedUser : Snapshot where
  name := "\\App\\User".toList
  instantiable := true
  properties := ["id".toList]
  methods := []
  docComment := some "/** The user\n * @property int $x old\n *   since 2\n * @method go()\n * @see A\n */".toList
  source := []
  path := ⟨[]⟩

/-- One property that the doc comment describes, one that the class declares and a new method. -/
def userMembers : Registry where
  virtualProperties := [⟨"x".toList, some "string".toList, true, true, "new".toList⟩,
    ⟨"id".toList, none, true, false, []⟩]
  virtualMethods := [⟨"Touch".toList, true, [], some "array<int, A>".toList, []⟩]
  declaredProperties := []
  declaredMethods := []

private theorem names_userMembers : Names userMembers := by
  constructor
  · intro property member tag parsed
    rcases List.mem_cons.mp member with rfl | later
    · have found : Option.some tag = some ⟨"property".toList, ["string $x new".toList]⟩ := by
        rw [← parsed]
        decide
      cases found
      decide
    · rw [List.mem_singleton.mp later] at parsed ⊢
      have found : Option.some tag = some ⟨"property-read".toList, ["$id".toList]⟩ := by
        rw [← parsed]
        decide
      cases found
      decide
  · intro method member tag parsed
    rw [List.mem_singleton.mp member] at parsed ⊢
    have found : Option.some tag = some ⟨"method".toList, ["static array<int, A> Touch()".toList]⟩ := by
      rw [← parsed]
      decide
    cases found
    exact ⟨"Touch".toList, true, by decide, by decide⟩

theorem text_of_merged_user :
    text { documentedUser with docComment := some (text documentedUser userMembers ⟨false, true, false⟩) }
        userMembers ⟨false, true, false⟩ =
      text documentedUser userMembers ⟨false, true, false⟩ :=
  text_of_merged documentedUser userMembers ⟨false, true, false⟩ (by decide) (by decide) (by decide)
    names_userMembers (by decide +kernel)

def IsDropped (registry : Registry) (options : Options) : TagKind → Prop
  | .property name => options.reset = true ∨
      (options.overwrite = true ∧ ∃ property ∈ registry.virtualProperties, property.name = name)
  | .method name _ => options.reset = true ∨
      (options.overwrite = true ∧
        ∃ method ∈ registry.virtualMethods, Text.lower method.name = Text.lower name)
  | .other => False

instance (registry : Registry) (options : Options) (kind : TagKind) :
    Decidable (IsDropped registry options kind) :=
  match kind with
  | .property name => inferInstanceAs (Decidable (options.reset = true ∨
      (options.overwrite = true ∧ ∃ property ∈ registry.virtualProperties, property.name = name)))
  | .method name _ => inferInstanceAs (Decidable (options.reset = true ∨
      (options.overwrite = true ∧
        ∃ method ∈ registry.virtualMethods, Text.lower method.name = Text.lower name)))
  | .other => inferInstanceAs (Decidable False)

theorem survives_iff (registry : Registry) (options : Options) (tag : Tag) :
    survives registry options tag = true ↔ ¬IsDropped registry options tag.kind := by
  unfold survives IsDropped
  cases tag.kind with
  | property name =>
      cases options.reset <;> cases options.overwrite <;> simp [Registry.virtualProperty?]
  | method name isStatic =>
      cases options.reset <;> cases options.overwrite <;>
        simp [Registry.virtualMethod?, Text.sameName]
  | other => simp

def staying (snapshot : Snapshot) (registry : Registry) (options : Options) : List Tag :=
  (present snapshot).tags.filter fun tag => ¬IsDropped registry options tag.kind

theorem kept_eq_staying (snapshot : Snapshot) (registry : Registry) (options : Options) :
    kept snapshot registry options = staying snapshot registry options := by
  unfold kept staying
  apply List.filter_congr
  intro tag _
  rw [Bool.eq_iff_iff, survives_iff, decide_eq_true_iff]

theorem filterMap_eq_of_isSome {Member : Type} (tag? : Member → Option Tag) (members : List Member)
    (tagged : ∀ member, ∃ tag, tag? member = some tag) :
    (members.filterMap tag?).map some = members.map tag? := by
  induction members with
  | nil => rfl
  | cons member members ih =>
      obtain ⟨tag, found⟩ := tagged member
      rw [List.filterMap_cons, found]
      simp only [List.map_cons, found, ih]

private theorem staying_unflagged (snapshot : Snapshot) (registry : Registry) (options : Options)
    (keepsAll : options.reset = false) (keepsNamed : options.overwrite = false) :
    staying snapshot registry options = (present snapshot).tags := by
  rw [← kept_eq_staying]
  unfold kept
  apply List.filter_eq_self.mpr
  intro tag _
  exact survives_without_flags registry options tag keepsAll keepsNamed

private theorem staying_other (snapshot : Snapshot) (registry : Registry) (options : Options) :
    (staying snapshot registry options).filter (·.kind = .other) =
      (present snapshot).tags.filter (·.kind = .other) := by
  unfold staying
  rw [List.filter_filter]
  apply List.filter_congr
  intro tag _
  by_cases other : tag.kind = .other
  · simp [other, IsDropped]
  · simp [other]

theorem not_isDropped_of_staying (snapshot : Snapshot) (registry : Registry) (options : Options) (tag : Tag)
    (stays : tag ∈ staying snapshot registry options) : ¬IsDropped registry options tag.kind :=
  of_decide_eq_true (List.mem_filter.mp stays).2

/-- Where every tag that describes a member is dropped, only a declaration accounts for the member. -/
theorem filter_open_staying {Member : Type} (snapshot : Snapshot) (registry : Registry) (options : Options)
    (members : List Member) (describes : Member → Tag → Bool) (declared : Member → Bool)
    (dropped : ∀ member ∈ members, ∀ tag, describes member tag = true → IsDropped registry options tag.kind) :
    (members.filter fun member => !(staying snapshot registry options).any (describes member) && !declared member) =
      members.filter fun member => !declared member := by
  apply List.filter_congr
  intro member pending
  have unnamed : (staying snapshot registry options).any (describes member) = false := by
    apply List.any_eq_false.mpr
    intro tag stays described
    exact not_isDropped_of_staying snapshot registry options tag stays (dropped member pending tag described)
  rw [unnamed]
  exact Bool.true_and _

theorem openProperties_flagged (snapshot other : Snapshot) (registry : Registry) (options : Options)
    (flagged : options.reset = true ∨ options.overwrite = true) :
    openProperties other registry (staying snapshot registry options) =
      registry.virtualProperties.filter fun property => !other.hasProperty property.name := by
  apply filter_open_staying
  intro property pending tag described
  rw [(describesProperty_iff _ _).mp described]
  exact flagged.imp_right fun overwrite => ⟨overwrite, property, pending, rfl⟩

theorem openMethods_flagged (snapshot other : Snapshot) (registry : Registry) (options : Options)
    (flagged : options.reset = true ∨ options.overwrite = true) :
    openMethods other registry (staying snapshot registry options) =
      registry.virtualMethods.filter fun method => !other.hasMethod method.name := by
  apply filter_open_staying
  intro method pending tag described
  obtain ⟨name, isStatic, kind, same⟩ := (describesMethod_iff _ _).mp described
  rw [kind]
  exact flagged.imp_right fun overwrite => ⟨overwrite, method, pending, (beq_iff_eq.mp same).symm⟩

/-- A merged block, read back, has the summary of the present block and these tags: every present
tag that the options do not drop, and one new tag for each pending virtual member that neither the
class nor a tag that stays accounts for. -/
theorem parse_text_staying (snapshot : Snapshot) (registry : Registry) (options : Options)
    (named : snapshot.name ≠ []) (unbroken : '\n' ∉ snapshot.name) (firm : Text.EndsFirm snapshot.name)
    (closed : ∀ tag ∈ tags snapshot registry options, tag.IsClosed) :
    ∃ merged made,
      DocBlock.parse (text snapshot registry options) = .ok ⟨(present snapshot).summary, merged⟩ ∧
      merged.Perm (staying snapshot registry options ++ made) ∧
      made.map some =
        (openProperties snapshot registry (staying snapshot registry options)).map VirtualProperty.tag? ++
          (openMethods snapshot registry (staying snapshot registry options)).map VirtualMethod.tag? ∧
      (options.reset = false → options.overwrite = false →
        staying snapshot registry options = (present snapshot).tags) ∧
      (staying snapshot registry options).filter (·.kind = .other) =
        (present snapshot).tags.filter (·.kind = .other) ∧
      (options.reset = true → ∀ tag ∈ staying snapshot registry options, tag.kind = .other) ∧
      (options.reset = true ∨ options.overwrite = true →
        openProperties snapshot registry (staying snapshot registry options) =
            registry.virtualProperties.filter (fun property => !snapshot.hasProperty property.name) ∧
          openMethods snapshot registry (staying snapshot registry options) =
            registry.virtualMethods.filter fun method => !snapshot.hasMethod method.name) := by
  have normal := isNormal_present snapshot named unbroken firm
  refine ⟨Tag.sort (tags snapshot registry options),
    rendered snapshot registry (staying snapshot registry options),
    parse_text snapshot registry options normal closed, ?_, ?_,
    staying_unflagged snapshot registry options, staying_other snapshot registry options, ?_, ?_⟩
  · rw [tags_eq, kept_eq_staying]
    exact Tag.sort_perm _
  · unfold rendered
    rw [List.map_append, filterMap_eq_of_isSome _ _ VirtualProperty.tag_isSome,
      filterMap_eq_of_isSome _ _ VirtualMethod.tag_isSome]
  · intro reset tag stays
    have notDropped := not_isDropped_of_staying snapshot registry options tag stays
    cases kind : tag.kind with
    | property name => rw [kind] at notDropped; exact absurd (Or.inl reset) notDropped
    | method name isStatic => rw [kind] at notDropped; exact absurd (Or.inl reset) notDropped
    | other => rfl
  · intro flagged
    exact ⟨openProperties_flagged snapshot snapshot registry options flagged,
      openMethods_flagged snapshot snapshot registry options flagged⟩

theorem parse_text_staying_user :
    ∃ merged made,
      DocBlock.parse (text documentedUser userMembers ⟨false, true, false⟩) = .ok ⟨"The user".toList, merged⟩ ∧
      merged.Perm ([⟨"method".toList, ["go()".toList]⟩, ⟨"see".toList, ["A".toList]⟩] ++ made) ∧
      made.length = 2 := by
  obtain ⟨merged, made, parsed, perm, rendered, _⟩ :=
    parse_text_staying documentedUser userMembers ⟨false, true, false⟩ (by decide) (by decide) (by decide)
      (by decide +kernel)
  refine ⟨merged, made, parsed, perm, ?_⟩
  have size := congrArg List.length rendered
  rw [List.length_map] at size
  rw [size]
  decide

end MemberDoc.ClassDoc
