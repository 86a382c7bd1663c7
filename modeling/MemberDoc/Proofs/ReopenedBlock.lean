import MemberDoc.Proofs.BlockText

set_option autoImplicit false

/-! Reading a written block. A tag whose later lines could start a tag falls apart into several
tags, each of which is closed; so a block that was written and read once stays as it is. -/

namespace MemberDoc

namespace Tag

private theorem mem_tail_filter {α : Type} (keeps : α → Bool) (items : List α) (item : α)
    (member : item ∈ (items.filter keeps).tail) : item ∈ items.tail := by
  cases items with
  | nil => cases member
  | cons first items =>
      rw [List.filter_cons] at member
      split at member
      · exact (List.mem_filter.mp member).1
      · exact (List.mem_filter.mp (List.mem_of_mem_tail member)).1

/-- The later lines of a tag come from later lines of its source. -/
theorem exists_line_of_parse (source rest : Text) (tag : Tag) (trimmed : Text.trim source = '@' :: rest)
    (parsed : parse? source = some tag) (line : Text) (member : line ∈ tag.body.tail) :
    ∃ raw ∈ (Text.lines ('@' :: rest)).tail, line = Text.collapse raw := by
  have named : rest.takeWhile isNamePart ≠ [] := by
    intro empty
    unfold parse? at parsed
    rw [trimmed] at parsed
    simp only [empty, reduceCtorEq] at parsed
  rw [parse_of_trim source rest trimmed named] at parsed
  cases parsed
  have inLines := mem_tail_filter _ _ line member
  rw [← List.map_tail] at inLines
  obtain ⟨raw, present, rfl⟩ := List.mem_map.mp inLines
  have solid : ∀ c ∈ '@' :: rest.takeWhile isNamePart, Text.isBlank c = false := by
    intro c inLead
    rcases List.mem_cons.mp inLead with rfl | inName
    · rfl
    · exact isBlank_of_isNamePart c (List.all_eq_true.mp List.all_takeWhile c inName)
  have sameTail := Text.tail_lines_solid ('@' :: rest.takeWhile isNamePart) (rest.dropWhile isNamePart) solid
  rw [List.cons_append, List.takeWhile_append_dropWhile] at sameTail
  refine ⟨raw, ?_, rfl⟩
  rw [sameTail]
  exact present

end Tag

namespace DocBlock

/-- A group of lines is led by the start of a tag, and no other line in it starts one. -/
structure IsGroup (lines group : List Text) : Prop where
  members : ∀ line ∈ group, line ∈ lines
  starts : ∃ rest, group.head? = some ('@' :: rest)
  continued : ∀ line ∈ group.tail, startsTag line = false

private theorem IsGroup.cons {lines group : List Text} (isGroup : IsGroup lines group) (line : Text) :
    IsGroup (line :: lines) group :=
  ⟨fun other member => List.mem_cons_of_mem line (isGroup.members other member), isGroup.starts, isGroup.continued⟩

private theorem exists_of_startsTag (line : Text) (starts : startsTag line = true) : ∃ rest, line = '@' :: rest := by
  unfold startsTag at starts
  split at starts
  · exact ⟨_, rfl⟩
  · cases starts

private theorem isGroup_of_mem (lines group : List Text) (member : group ∈ (groupTags lines).2) :
    IsGroup lines group := by
  induction lines with
  | nil => cases member
  | cons line lines ih =>
      rw [groupTags] at member
      by_cases starts : startsTag line = true
      · simp only [if_pos starts] at member
        rcases List.mem_cons.mp member with rfl | later
        · obtain ⟨rest, rfl⟩ := exists_of_startsTag line starts
          refine ⟨?_, ⟨rest, rfl⟩, fun other inTail => (mem_loose lines other inTail).2⟩
          intro other inGroup
          rcases List.mem_cons.mp inGroup with rfl | inLoose
          · exact List.mem_cons_self
          · exact List.mem_cons_of_mem _ (mem_loose lines other inLoose).1
        · exact (ih later).cons line
      · by_cases empty : line = []
        · simp only [if_neg starts, if_pos empty] at member
          exact (ih member).cons line
        · simp only [if_neg starts, if_neg empty] at member
          exact (ih member).cons line

private theorem startsTag_firstRendered (tag : Tag) : startsTag tag.firstRendered = true :=
  rfl

private theorem isClosed_of_isGroup {tag : Tag} (normal : tag.IsNormal) (group : List Text)
    (isGroup : IsGroup tag.renderedLines group) (piece : Tag)
    (parsed : Tag.parse? (Text.joinWith ['\n'] group) = some piece) : piece.IsClosed := by
  obtain ⟨rest, first⟩ := isGroup.starts
  obtain ⟨later, rfl⟩ := List.head?_eq_some_iff.mp first
  have isLine := fun line member => normal.isLine line (isGroup.members line member)
  have firm : Text.EndsFirm (Text.joinWith ['\n'] (('@' :: rest) :: later)) :=
    Text.endsFirm_joinWith _ _ fun line member => ⟨(isLine line member).1, (isLine line member).2.2⟩
  have found : Text.lines (Text.joinWith ['\n'] (('@' :: rest) :: later)) = ('@' :: rest) :: later :=
    Text.lines_joinWith _ fun line member =>
      ⟨(isLine line member).1, (isLine line member).2.1, Tag.noReturn_of_endsFirm line (isLine line member).2.2⟩
  obtain ⟨joined, known⟩ : ∃ joined, Text.joinWith ['\n'] (('@' :: rest) :: later) = '@' :: joined := by
    have lead := Text.joinWith_lead ['\n'] ['@'] rest later
    exact ⟨_, lead⟩
  rw [known] at firm found parsed
  intro line member
  obtain ⟨raw, present, rfl⟩ :=
    Tag.exists_line_of_parse ('@' :: joined) joined piece (Text.trim_of_firm '@' joined rfl firm) parsed line member
  rw [found, List.tail_cons] at present
  have notTag := isGroup.continued raw present
  -- The raw line is not the first line of the tag, which starts a tag, so it is collapsed.
  have inBody : raw ∈ tag.body.tail := by
    rcases List.mem_cons.mp (isGroup.members raw (List.mem_cons_of_mem _ present)) with rfl | inTail
    · rw [startsTag_firstRendered] at notTag
      cases notTag
    · exact inTail
  rw [(normal.collapsed raw (List.mem_of_mem_tail inBody)).stable]
  intro head
  obtain ⟨others, rfl⟩ := List.head?_eq_some_iff.mp head
  cases notTag

private theorem isClosed_of_mem_reopened {tag : Tag} (normal : tag.IsNormal) (piece : Tag)
    (member : piece ∈ reopened tag) :
    piece.IsClosed := by
  obtain ⟨source, inSources, parsed⟩ := List.mem_filterMap.mp member
  obtain ⟨group, inGroups, rfl⟩ := List.mem_map.mp inSources
  exact isClosed_of_isGroup normal group (isGroup_of_mem _ group inGroups) piece parsed

private theorem isClosed_of_opening {tag : Tag} (same : opening tag = tag) : tag.IsClosed := by
  have body := congrArg (fun other => other.body.tail) same
  intro line member head
  obtain ⟨rest, rfl⟩ := List.head?_eq_some_iff.mp head
  have inLoose : '@' :: rest ∈ (groupTags tag.body.tail).1 := by
    cases known : tag.body with
    | nil =>
        rw [known] at member
        cases member
    | cons first others =>
        simp only [opening, known, List.take_succ_cons, List.take_zero, List.cons_append, List.nil_append,
          List.tail_cons] at body
        rw [known, List.tail_cons] at member
        rw [List.tail_cons, body]
        exact member
  cases (mem_loose _ _ inLoose).2

theorem flatMap_reopened_eq_iff (tags : List Tag) (normal : ∀ tag ∈ tags, tag.IsNormal) :
    tags.flatMap reopened = tags ↔ ∀ tag ∈ tags, tag.IsClosed := by
  induction tags with
  | nil => simp
  | cons tag tags ih =>
      have tagNormal := normal tag List.mem_cons_self
      have later := ih fun other member => normal other (List.mem_cons_of_mem tag member)
      rw [List.flatMap_cons, List.forall_mem_cons]
      constructor
      · intro same
        rw [reopened_eq tagNormal, List.cons_append] at same
        have closed := isClosed_of_opening (List.cons.inj same).1
        rw [← List.cons_append, ← reopened_eq tagNormal, reopened_of_isClosed tagNormal closed] at same
        exact ⟨closed, later.mp (List.cons.inj same).2⟩
      · intro closed
        rw [reopened_of_isClosed tagNormal closed.1, later.mpr closed.2]
        rfl

/-- A block that was read is found again in its own text exactly if all its tags are closed. In any
case its summary is, and what is read from the text is found again from then on. -/
theorem parse_serialize_iff (text : Text) (block : DocBlock) (parsed : parse text = .ok block) :
    ∃ again, parse block.serialize = .ok again ∧ again.summary = block.summary ∧
      (again = block ↔ ∀ tag ∈ block.tags, tag.IsClosed) ∧ parse again.serialize = .ok again := by
  have normal := isNormal_of_parse text block parsed
  have reread := normal.parse_serialize_reopened
  refine ⟨_, reread, rfl, ?_, ?_⟩
  · rw [← flatMap_reopened_eq_iff block.tags normal.tags]
    constructor
    · intro same
      exact congrArg DocBlock.tags same
    · intro same
      rw [same]
  · apply (isNormal_of_parse _ _ reread).parse_serialize
    intro piece member
    obtain ⟨tag, present, inTag⟩ := List.mem_flatMap.mp member
    exact isClosed_of_mem_reopened (normal.tags tag present) piece inTag

def nestedSource : Text :=
  "/**\n * @OA\\Schema(\n *   @OA\\Property (property=\"id\")\n * )\n */".toList

def nestedBlock : DocBlock :=
  ⟨[], [⟨"OA\\Schema".toList, ["(".toList, "@OA\\Property (property=\"id\")".toList, ")".toList]⟩]⟩

def apartBlock : DocBlock :=
  ⟨[], [⟨"OA\\Schema".toList, ["(".toList]⟩,
    ⟨"OA\\Property".toList, ["(property=\"id\")".toList, ")".toList]⟩]⟩

theorem parse_nestedSource : parse nestedSource = .ok nestedBlock :=
  (parse_enclosed "\n * @OA\\Schema(\n *   @OA\\Property (property=\"id\")\n * )\n ".toList).trans
    (congrArg Except.ok (by decide +kernel))

theorem parse_serialize_iff_nested :
    parse nestedSource = .ok nestedBlock ∧
      ∃ again, parse nestedBlock.serialize = .ok again ∧ again.summary = nestedBlock.summary ∧
        (again = nestedBlock ↔ ∀ tag ∈ nestedBlock.tags, tag.IsClosed) ∧ parse again.serialize = .ok again :=
  ⟨parse_nestedSource, parse_serialize_iff nestedSource nestedBlock parse_nestedSource⟩

/-- The inner annotation becomes a tag of its own, and the text changes with it. -/
theorem nested_annotation_reopens :
    parse nestedSource = .ok nestedBlock ∧ parse nestedBlock.serialize = .ok apartBlock ∧
      apartBlock ≠ nestedBlock ∧ apartBlock.serialize ≠ nestedBlock.serialize := by
  have normal := isNormal_of_parse _ _ parse_nestedSource
  have reread : DocBlock.mk nestedBlock.summary (nestedBlock.tags.flatMap reopened) = apartBlock := by
    decide +kernel
  refine ⟨parse_nestedSource, ?_, by decide +kernel, by decide +kernel⟩
  rw [normal.parse_serialize_reopened, reread]

end DocBlock
end MemberDoc
