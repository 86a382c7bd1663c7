import MemberDoc.Proofs.TagOrder

set_option autoImplicit false

/-! The canonical order of tags, group by group. Tags are sorted in two parts, the leading ones by themselves; seen by
group, both parts together are in one order. -/

namespace MemberDoc

/-- What tags are grouped by: the kinds of members, and all other tags as one group. -/
inductive TagGroup where
  | unknown
  | staticMethod
  | method
  | writeOnly
  | readOnly
  | property
  deriving DecidableEq

namespace TagGroup

def position : TagGroup → Nat
  | unknown => 0
  | staticMethod => 1
  | method => 2
  | writeOnly => 3
  | readOnly => 4
  | property => 5

private theorem eq_of_position (left right : TagGroup) (same : left.position = right.position) : left = right := by
  cases left <;> cases right <;> simp_all [position]

end TagGroup

namespace Tag

/-- The group of a tag goes by its name, so a tag that names no member stays with those of its name. -/
def group (tag : Tag) : TagGroup :=
  if tag.name = "method".toList then if tag.isStaticMethod then .staticMethod else .method
  else if tag.name = "property-write".toList then .writeOnly
  else if tag.name = "property-read".toList then .readOnly
  else if tag.name = "property".toList then .property
  else .unknown

private theorem isStaticMethod_of_name (tag : Tag) (other : tag.name ≠ "method".toList) :
    tag.isStaticMethod = false := by
  unfold isStaticMethod kind
  split
  · rename_i method
    split at method
    · split at method <;> cases method
    · cases method
  · rfl

private theorem trailing_of_rank (tag : Tag) (rank : Nat) (ranked : tag.rank? = some rank)
    (notStatic : tag.isStaticMethod = false) : tag.rank?.getD 0 = rank ∧ tag.isLeading = false := by
  simp [isLeading, ranked, notStatic]

theorem position_group (tag : Tag) (named : tag.name ≠ []) :
    tag.group.position = tag.rank?.getD 0 + (if tag.isLeading then 0 else 1) ∧
      (tag.isLeading = true ↔ tag.group.position ≤ 1) := by
  unfold group
  by_cases method : tag.name = "method".toList
  · have ranked : tag.rank? = some 1 := by rw [rank?, method]; rfl
    rw [if_pos method]
    cases static : tag.isStaticMethod with
    | true =>
        have leading : tag.isLeading = true := by simp [isLeading, static]
        rw [leading, ranked]
        decide
    | false =>
        obtain ⟨value, trailing⟩ := tag.trailing_of_rank 1 ranked static
        rw [value, trailing]
        decide
  have notStatic := tag.isStaticMethod_of_name method
  rw [if_neg method]
  by_cases writeOnly : tag.name = "property-write".toList
  · obtain ⟨value, trailing⟩ := tag.trailing_of_rank 2 (by rw [rank?, writeOnly]; rfl) notStatic
    rw [if_pos writeOnly, value, trailing]
    decide
  rw [if_neg writeOnly]
  by_cases readOnly : tag.name = "property-read".toList
  · obtain ⟨value, trailing⟩ := tag.trailing_of_rank 3 (by rw [rank?, readOnly]; rfl) notStatic
    rw [if_pos readOnly, value, trailing]
    decide
  rw [if_neg readOnly]
  by_cases property : tag.name = "property".toList
  · obtain ⟨value, trailing⟩ := tag.trailing_of_rank 4 (by rw [rank?, property]; rfl) notStatic
    rw [if_pos property, value, trailing]
    decide
  have unranked : tag.rank? = none := by
    rw [rank?, List.idxOf?_eq_none_iff]
    intro listed
    simp only [rankedNames, List.mem_cons, List.not_mem_nil, or_false] at listed
    rcases listed with empty | isMethod | isWrite | isRead | isProperty
    · exact named empty
    · exact method isMethod
    · exact writeOnly isWrite
    · exact readOnly isRead
    · exact property isProperty
  have leading : tag.isLeading = true := by simp [isLeading, unranked]
  rw [if_neg property, leading, unranked]
  decide

/-- One tag may stand before another: its group comes first, or both are of one group and its bytes come first. -/
def MayPrecede (earlier later : Tag) : Prop :=
  earlier.group.position < later.group.position ∨
    earlier.group = later.group ∧ Text.bytes earlier.render ≤ Text.bytes later.render

/-- Within one part the order of ranks and texts is that of groups and bytes. -/
theorem mayPrecede_of_precedes (earlier later : Tag) (earlierNamed : earlier.name ≠ []) (laterNamed : later.name ≠ [])
    (part : earlier.isLeading = later.isLeading) (ordered : precedes earlier later = true) :
    MayPrecede earlier later := by
  obtain ⟨earlierPosition, _⟩ := earlier.position_group earlierNamed
  obtain ⟨laterPosition, _⟩ := later.position_group laterNamed
  rw [part] at earlierPosition
  rcases (precedes_iff earlier later).mp ordered with lower | ⟨level, below⟩
  · exact Or.inl (by omega)
  · refine Or.inr ⟨TagGroup.eq_of_position _ _ (by omega), ?_⟩
    exact (Text.isAtMost_iff_bytes _ _).mp below

private theorem mayPrecede_of_leading (earlier later : Tag) (earlierNamed : earlier.name ≠ [])
    (laterNamed : later.name ≠ []) (leading : earlier.isLeading = true) (trailing : later.isLeading = false) :
    MayPrecede earlier later := by
  have low := (earlier.position_group earlierNamed).2.mp leading
  have high : ¬ later.group.position ≤ 1 := fun low => by
    rw [(later.position_group laterNamed).2.mpr low] at trailing
    cases trailing
  exact Or.inl (by omega)

private theorem pairwise_part (tags : List Tag) (leads : Bool) (named : ∀ tag ∈ tags, tag.name ≠ [])
    (part : ∀ tag ∈ tags, tag.isLeading = leads) : (tags.mergeSort precedes).Pairwise MayPrecede := by
  have member (tag : Tag) (sorted : tag ∈ tags.mergeSort precedes) : tag ∈ tags :=
    (List.mergeSort_perm tags precedes).mem_iff.mp sorted
  refine (List.pairwise_mergeSort precedes_trans precedes_total tags).imp_of_mem ?_
  intro earlier later inEarlier inLater ordered
  have first := member earlier inEarlier
  have second := member later inLater
  exact mayPrecede_of_precedes earlier later (named earlier first) (named later second)
    ((part earlier first).trans (part later second).symm) ordered

private theorem pairwise_sort (tags : List Tag) (named : ∀ tag ∈ tags, tag.name ≠ []) :
    (sort tags).Pairwise MayPrecede := by
  have leading (tag : Tag) (listed : tag ∈ tags.filter isLeading) : tag.name ≠ [] ∧ tag.isLeading = true := by
    obtain ⟨inTags, leads⟩ := List.mem_filter.mp listed
    exact ⟨named tag inTags, leads⟩
  have trailing (tag : Tag) (listed : tag ∈ tags.filter fun tag => !tag.isLeading) :
      tag.name ≠ [] ∧ tag.isLeading = false := by
    obtain ⟨inTags, trails⟩ := List.mem_filter.mp listed
    exact ⟨named tag inTags, by simpa using trails⟩
  unfold sort
  rw [List.pairwise_append]
  refine ⟨pairwise_part _ true (fun tag listed => (leading tag listed).1) (fun tag listed => (leading tag listed).2),
    pairwise_part _ false (fun tag listed => (trailing tag listed).1) (fun tag listed => (trailing tag listed).2), ?_⟩
  -- Across the two parts the groups alone decide.
  intro earlier inEarlier later inLater
  obtain ⟨earlierNamed, leads⟩ := leading earlier ((List.mergeSort_perm _ precedes).mem_iff.mp inEarlier)
  obtain ⟨laterNamed, trails⟩ := trailing later ((List.mergeSort_perm _ precedes).mem_iff.mp inLater)
  exact mayPrecede_of_leading earlier later earlierNamed laterNamed leads trails

/-- Sorting lists the tags that were read group by group, each group by its bytes, and depends on the tags alone. -/
theorem sort_by_group (tags : List Tag) (parsed : ∀ tag ∈ tags, ∃ source, parse? source = some tag) :
    (sort tags).Perm tags ∧ (sort tags).Pairwise MayPrecede ∧ ∀ other, other.Perm tags → sort other = sort tags := by
  have normal (tag : Tag) (listed : tag ∈ tags) : tag.IsNormal := by
    obtain ⟨source, read⟩ := parsed tag listed
    exact isNormal_of_parse source tag read
  refine ⟨sort_perm tags, pairwise_sort tags fun tag listed => (normal tag listed).named, fun other perm => ?_⟩
  exact (sort_eq_of_perm tags other normal perm.symm).symm

def mixedTags : List Tag :=
  [⟨"property".toList, ["int $total".toList]⟩, ⟨"method".toList, ["void clear()".toList]⟩,
    ⟨"property-read".toList, ["string".toList]⟩, ⟨"author".toList, ["\u00c9mile".toList]⟩,
    ⟨"method".toList, ["static self make()".toList]⟩, ⟨"author".toList, ["Zoe".toList, "and others".toList]⟩,
    ⟨"property-write".toList, ["bool $flag".toList]⟩, ⟨"method".toList, ["void".toList]⟩]

private theorem parsed_mixedTags : ∀ tag ∈ mixedTags, ∃ source, parse? source = some tag := by
  have readBack : ∀ tag ∈ mixedTags, parse? tag.render = some tag := by decide +kernel
  exact fun tag listed => ⟨tag.render, readBack tag listed⟩

theorem sort_by_group_mixed :
    mixedTags.map group = [.property, .method, .readOnly, .unknown, .staticMethod, .unknown, .writeOnly, .method] ∧
      (sort mixedTags).Perm mixedTags ∧ (sort mixedTags).Pairwise MayPrecede ∧
      sort mixedTags.reverse = sort mixedTags := by
  obtain ⟨perm, ordered, unique⟩ := sort_by_group mixedTags parsed_mixedTags
  exact ⟨by decide +kernel, perm, ordered, unique mixedTags.reverse (List.reverse_perm mixedTags)⟩

end Tag
end MemberDoc
