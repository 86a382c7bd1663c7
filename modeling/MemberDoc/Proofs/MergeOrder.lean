import MemberDoc.Proofs.MergedBlock

set_option autoImplicit false

/-! Merging in another order. Which tags stay and which members get a tag depends on names alone, and
tags are put in an order that decides between any two of them. So neither the order of the present tags
nor that in which members were registered shows in the merged block. -/

namespace MemberDoc.ClassDoc

private theorem find_isSome_of_perm {Member : Type} (isWanted : Member → Bool) (left right : List Member)
    (perm : left.Perm right) : (left.find? isWanted).isSome = (right.find? isWanted).isSome := by
  rw [Bool.eq_iff_iff, List.find?_isSome, List.find?_isSome]
  simp only [perm.mem_iff]

variable {first second : Registry} (options : Options)

private theorem survives_of_perm (properties : first.virtualProperties.Perm second.virtualProperties)
    (methods : first.virtualMethods.Perm second.virtualMethods) (tag : Tag) :
    survives first options tag = survives second options tag := by
  unfold survives Registry.virtualProperty? Registry.virtualMethod?
  cases tag.kind with
  | property name =>
      dsimp only
      rw [find_isSome_of_perm _ _ _ properties]
  | method name isStatic =>
      dsimp only
      rw [find_isSome_of_perm _ _ _ methods]
  | other => rfl

private theorem kept_perm (left right : Snapshot) (tags : (present left).tags.Perm (present right).tags)
    (properties : first.virtualProperties.Perm second.virtualProperties)
    (methods : first.virtualMethods.Perm second.virtualMethods) :
    (kept left first options).Perm (kept right second options) := by
  have same : survives first options = survives second options := funext (survives_of_perm options properties methods)
  unfold kept
  rw [same]
  exact tags.filter _

private theorem rendered_perm (snapshot : Snapshot) (left right : List Tag) (tags : left.Perm right)
    (properties : first.virtualProperties.Perm second.virtualProperties)
    (methods : first.virtualMethods.Perm second.virtualMethods) :
    (rendered snapshot first left).Perm (rendered snapshot second right) := by
  rw [rendered_of_perm snapshot first left right tags]
  exact ((properties.filter _).filterMap _).append ((methods.filter _).filterMap _)

private theorem isNormal_present_tags (snapshot : Snapshot) : ∀ tag ∈ (present snapshot).tags, tag.IsNormal := by
  unfold present
  split
  · rename_i block known
    obtain ⟨text, _, parsed⟩ := Option.map_eq_some_iff.mp known
    exact (DocBlock.isNormal_of_parse text block parsed).tags
  · intro tag member
    cases member

/-- A merged block depends neither on the order of the present tags, which another doc comment may give
differently, nor on the order in which virtual members were registered. -/
theorem text_eq_of_perm (snapshot : Snapshot) (comment : Option Text) (first second : Registry) (options : Options)
    (summary : (present snapshot).summary = (present { snapshot with docComment := comment }).summary)
    (tagged : (present snapshot).tags.Perm (present { snapshot with docComment := comment }).tags)
    (properties : first.virtualProperties.Perm second.virtualProperties)
    (methods : first.virtualMethods.Perm second.virtualMethods) :
    text snapshot first options = text { snapshot with docComment := comment } second options := by
  have keptPerm := kept_perm options snapshot { snapshot with docComment := comment } tagged properties methods
  have perm : (tags snapshot first options).Perm (tags { snapshot with docComment := comment } second options) := by
    rw [tags_eq, tags_eq]
    -- What is declared decides on new tags, and the doc comment does not.
    exact keptPerm.append (rendered_perm snapshot _ _ keptPerm properties methods)
  have normal := isNormal_tags_of_present snapshot first options (isNormal_present_tags snapshot)
  unfold text
  rw [summary, Tag.sort_eq_of_perm _ _ normal perm]

def reorderedComment : Text :=
  "/**\n * The user\n *\n * @see A\n * @method go()\n * @property int $x old\n *   since 2\n */".toList

def reorderedMembers : Registry :=
  { userMembers with virtualProperties := userMembers.virtualProperties.reverse }

theorem text_eq_of_perm_user :
    text documentedUser userMembers ⟨false, true, false⟩ =
      text { documentedUser with docComment := some reorderedComment } reorderedMembers ⟨false, true, false⟩ :=
  text_eq_of_perm documentedUser (some reorderedComment) userMembers reorderedMembers ⟨false, true, false⟩
    (by decide +kernel) (by decide +kernel) (List.reverse_perm _).symm (.refl _)

end MemberDoc.ClassDoc
