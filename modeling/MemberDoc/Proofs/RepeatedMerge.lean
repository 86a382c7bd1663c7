import MemberDoc.Proofs.MergedBlock

set_option autoImplicit false

/-! Merging into a block that an earlier merge has left. Between the two the class may have come to declare
more members. Without flags that makes no difference; with a flag set it shows for each pending virtual
member that has come to be declared. -/

namespace MemberDoc.ClassDoc

variable (before after : Snapshot) (registry : Registry) (options : Options)

theorem text_eq_of_sorted (merged : present after = ⟨(present before).summary, Tag.sort (tags before registry options)⟩)
    (sorted : Tag.sort (tags after registry options) = Tag.sort (tags before registry options)) :
    text after registry options = text before registry options := by
  unfold text
  rw [sorted, merged]

theorem text_again_unflagged (normal : (present before).IsNormal)
    (closed : ∀ tag ∈ tags before registry options, tag.IsClosed) (names : Names registry)
    (keepsAll : options.reset = false) (keepsNamed : options.overwrite = false)
    (comment : after.docComment = some (text before registry options))
    (properties : ∀ name, before.hasProperty name = true → after.hasProperty name = true)
    (methods : ∀ name, before.hasMethod name = true → after.hasMethod name = true) :
    text after registry options = text before registry options := by
  have merged := present_of_text before after registry options normal closed comment
  apply text_eq_of_sorted before after registry options merged
  rw [tags_again_unflagged before after registry options names keepsAll keepsNamed (congrArg DocBlock.tags merged)
    properties methods]
  exact Tag.sort_sort _ (isNormal_tags before registry options normal)

/-- Filters of which one keeps as much as the other agree. -/
theorem filter_length {Member : Type} (members : List Member) (fewer more : Member → Bool)
    (included : ∀ member ∈ members, fewer member = true → more member = true) :
    (members.filter fewer).length ≤ (members.filter more).length ∧
      ((members.filter more).length ≤ (members.filter fewer).length →
        ∀ member ∈ members, fewer member = more member) := by
  induction members with
  | nil => exact ⟨Nat.le_refl 0, fun _ member inside => by cases inside⟩
  | cons first members ih =>
      obtain ⟨bound, same⟩ := ih fun member inside => included member (List.mem_cons_of_mem first inside)
      have here := included first List.mem_cons_self
      cases isFew : fewer first with
      | true =>
          have isMore := here isFew
          rw [List.filter_cons_of_pos isFew, List.filter_cons_of_pos isMore, List.length_cons, List.length_cons]
          refine ⟨by omega, fun equal member inside => ?_⟩
          rcases List.mem_cons.mp inside with rfl | later
          · rw [isFew, isMore]
          · exact same (by omega) member later
      | false =>
          rw [List.filter_cons_of_neg (by simp [isFew])]
          cases isMore : more first with
          | true =>
              rw [List.filter_cons_of_pos isMore, List.length_cons]
              exact ⟨by omega, fun equal => by omega⟩
          | false =>
              rw [List.filter_cons_of_neg (by simp [isMore])]
              refine ⟨bound, fun equal member inside => ?_⟩
              rcases List.mem_cons.mp inside with rfl | later
              · rw [isFew, isMore]
              · exact same equal member later

theorem rendered_flagged (flagged : options.reset = true ∨ options.overwrite = true) :
    rendered after registry (kept before registry options) =
      (registry.virtualProperties.filter fun property => !after.hasProperty property.name).filterMap VirtualProperty.tag? ++
        (registry.virtualMethods.filter fun method => !after.hasMethod method.name).filterMap VirtualMethod.tag? := by
  rw [rendered, kept_eq_staying, openProperties_flagged before after registry options flagged,
    openMethods_flagged before after registry options flagged]

private theorem length_rendered_flagged (flagged : options.reset = true ∨ options.overwrite = true) :
    (rendered after registry (kept before registry options)).length =
      (registry.virtualProperties.filter fun property => !after.hasProperty property.name).length +
        (registry.virtualMethods.filter fun method => !after.hasMethod method.name).length := by
  have size {Member : Type} (tag? : Member → Option Tag) (tagged : ∀ member, ∃ tag, tag? member = some tag)
      (members : List Member) : (members.filterMap tag?).length = members.length := by
    have mapped := congrArg List.length (filterMap_eq_of_isSome tag? members tagged)
    rwa [List.length_map, List.length_map] at mapped
  rw [rendered_flagged before after registry options flagged, List.length_append, size _ VirtualProperty.tag_isSome,
    size _ VirtualMethod.tag_isSome]

/-- Merges that leave the same block have merged the same tags. -/
theorem tags_perm_of_text (normal : (present before).IsNormal) (normalAfter : (present after).IsNormal)
    (closed : ∀ tag ∈ tags before registry options, tag.IsClosed)
    (closedAfter : ∀ tag ∈ tags after registry options, tag.IsClosed)
    (same : text after registry options = text before registry options) :
    (tags after registry options).Perm (tags before registry options) := by
  have readBack := parse_text after registry options normalAfter closedAfter
  rw [same, parse_text before registry options normal closed] at readBack
  have sorted : Tag.sort (tags before registry options) = Tag.sort (tags after registry options) :=
    congrArg DocBlock.tags (Except.ok.inj readBack)
  have back := Tag.sort_perm (tags before registry options)
  rw [sorted] at back
  exact (Tag.sort_perm _).symm.trans back

/-- With a flag set, a second merge leaves the block alone exactly if no pending virtual member has come to
be declared. -/
theorem text_again_flagged_iff (normal : (present before).IsNormal)
    (closed : ∀ tag ∈ tags before registry options, tag.IsClosed) (names : Names registry)
    (closedAgain : ∀ tag ∈ rendered after registry (kept before registry options), tag.IsClosed)
    (flagged : options.reset = true ∨ options.overwrite = true)
    (comment : after.docComment = some (text before registry options))
    (properties : ∀ name, before.hasProperty name = true → after.hasProperty name = true)
    (methods : ∀ name, before.hasMethod name = true → after.hasMethod name = true) :
    text after registry options = text before registry options ↔
      (∀ property ∈ registry.virtualProperties, after.hasProperty property.name = before.hasProperty property.name) ∧
        ∀ method ∈ registry.virtualMethods, after.hasMethod method.name = before.hasMethod method.name := by
  have merged := present_of_text before after registry options normal closed comment
  have again := tags_again_flagged before after registry options names flagged (congrArg DocBlock.tags merged)
  have allNormal := isNormal_tags before registry options normal
  constructor
  · intro same
    have normalAfter : (present after).IsNormal := by
      rw [merged]
      exact ⟨normal.summary, fun tag member => allNormal tag ((Tag.mem_sort _ tag).mp member)⟩
    have closedAfter : ∀ tag ∈ tags after registry options, tag.IsClosed := by
      intro tag member
      rcases List.mem_append.mp (again.mem_iff.mp member) with isKept | isRendered
      · exact closed tag (by rw [tags_eq]; exact List.mem_append_left _ isKept)
      · exact closedAgain tag isRendered
    have perm := tags_perm_of_text before after registry options normal normalAfter closed closedAfter same
    have length := (again.symm.trans perm).length_eq
    rw [tags_eq before, List.length_append, List.length_append, length_rendered_flagged before after _ _ flagged,
      length_rendered_flagged before before _ _ flagged] at length
    -- Neither list of pending members can have become longer, so neither has become shorter.
    have fewer := filter_length registry.virtualProperties (fun property => !after.hasProperty property.name)
      (fun property => !before.hasProperty property.name) fun property _ => by
        have stays := properties property.name
        revert stays
        cases before.hasProperty property.name <;> cases after.hasProperty property.name <;> simp
    have fewerMethods := filter_length registry.virtualMethods (fun method => !after.hasMethod method.name)
      (fun method => !before.hasMethod method.name) fun method _ => by
        have stays := methods method.name
        revert stays
        cases before.hasMethod method.name <;> cases after.hasMethod method.name <;> simp
    constructor
    · intro property pending
      exact Bool.not_inj (fewer.2 (by omega) property pending)
    · intro method pending
      exact Bool.not_inj (fewerMethods.2 (by omega) method pending)
  · rintro ⟨sameProperties, sameMethods⟩
    apply text_eq_of_sorted before after registry options merged
    apply Eq.symm
    apply Tag.sort_eq_of_perm _ _ allNormal
    refine List.Perm.trans ?_ again.symm
    rw [tags_eq, rendered_flagged before before registry options flagged, rendered_flagged before after registry options flagged,
      List.filter_congr fun property pending => congrArg (!·) (sameProperties property pending),
      List.filter_congr fun method pending => congrArg (!·) (sameMethods method pending)]

end MemberDoc.ClassDoc
