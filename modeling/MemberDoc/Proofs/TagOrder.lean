import MemberDoc.DocBlock.Order
import MemberDoc.Proofs.ByteOrder
import MemberDoc.Proofs.TagText

set_option autoImplicit false

/-! The canonical order of tags. The order is total and decides between any two tags that were
read, so sorting depends on the tags alone and not on how they came. -/

namespace MemberDoc.Tag

theorem precedes_iff (left right : Tag) :
    precedes left right = true ↔
      left.rank?.getD 0 < right.rank?.getD 0 ∨
        (left.rank?.getD 0 = right.rank?.getD 0 ∧ Text.isAtMost left.render right.render = true) := by
  simp only [precedes, Bool.or_eq_true, Bool.and_eq_true, decide_eq_true_eq, beq_iff_eq]

theorem precedes_trans (left middle right : Tag) (first : precedes left middle = true)
    (second : precedes middle right = true) : precedes left right = true := by
  rw [precedes_iff] at first second ⊢
  rcases first with lower | ⟨level, below⟩
  · rcases second with lower' | ⟨level', _⟩
    · exact Or.inl (Nat.lt_trans lower lower')
    · exact Or.inl (by omega)
  · rcases second with lower' | ⟨level', below'⟩
    · exact Or.inl (by omega)
    · exact Or.inr ⟨level.trans level', Text.isAtMost_trans _ _ _ below below'⟩

theorem precedes_total (left right : Tag) : (precedes left right || precedes right left) = true := by
  rw [Bool.or_eq_true, precedes_iff, precedes_iff]
  have texts := Text.isAtMost_total left.render right.render
  rw [Bool.or_eq_true] at texts
  rcases Nat.lt_trichotomy (left.rank?.getD 0) (right.rank?.getD 0) with lower | level | higher
  · exact Or.inl (Or.inl lower)
  · rcases texts with below | above
    · exact Or.inl (Or.inr ⟨level, below⟩)
    · exact Or.inr (Or.inr ⟨level.symm, above⟩)
  · exact Or.inr (Or.inl higher)

theorem precedes_antisymm (left right : Tag) (leftNormal : left.IsNormal) (rightNormal : right.IsNormal)
    (first : precedes left right = true) (second : precedes right left = true) : left = right := by
  rw [precedes_iff] at first second
  rcases first with lower | ⟨_, below⟩
  · rcases second with lower' | ⟨level', _⟩ <;> omega
  · rcases second with lower' | ⟨_, above⟩
    · omega
    · exact render_injective left right leftNormal rightNormal
        (Text.isAtMost_antisymm _ _ below above)

private theorem mergeSort_eq_of_perm (left right : List Tag) (normal : ∀ tag ∈ left, tag.IsNormal)
    (perm : left.Perm right) : left.mergeSort precedes = right.mergeSort precedes := by
  have sortedPerm : (left.mergeSort precedes).Perm (right.mergeSort precedes) :=
    (List.mergeSort_perm left precedes).trans (perm.trans (List.mergeSort_perm right precedes).symm)
  refine List.Perm.eq_of_pairwise ?_ (List.pairwise_mergeSort precedes_trans precedes_total left)
    (List.pairwise_mergeSort precedes_trans precedes_total right) sortedPerm
  intro first second inLeft inRight
  have firstIn : first ∈ left := (List.mergeSort_perm left precedes).mem_iff.mp inLeft
  have secondIn : second ∈ right := (List.mergeSort_perm right precedes).mem_iff.mp inRight
  exact precedes_antisymm first second (normal first firstIn) (normal second (perm.mem_iff.mpr secondIn))

/-- The order in which tags come does not matter. -/
theorem sort_eq_of_perm (left right : List Tag) (normal : ∀ tag ∈ left, tag.IsNormal)
    (perm : left.Perm right) : sort left = sort right := by
  unfold sort
  rw [mergeSort_eq_of_perm _ _ (fun tag member => normal tag ((List.mem_filter.mp member).1))
      (perm.filter isLeading),
    mergeSort_eq_of_perm _ _ (fun tag member => normal tag ((List.mem_filter.mp member).1))
      (perm.filter fun tag => !tag.isLeading)]

theorem sort_perm (tags : List Tag) : (sort tags).Perm tags := by
  unfold sort
  exact ((List.mergeSort_perm _ precedes).append (List.mergeSort_perm _ precedes)).trans
    (List.filter_append_perm isLeading tags)

@[simp] theorem mem_sort (tags : List Tag) (tag : Tag) : tag ∈ sort tags ↔ tag ∈ tags :=
  (sort_perm tags).mem_iff

theorem sort_sort (tags : List Tag) (normal : ∀ tag ∈ tags, tag.IsNormal) : sort (sort tags) = sort tags :=
  sort_eq_of_perm (sort tags) tags (fun tag member => normal tag ((mem_sort tags tag).mp member))
    (sort_perm tags)

end MemberDoc.Tag
