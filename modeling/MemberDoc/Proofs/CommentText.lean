import MemberDoc.Proofs.Masking
import MemberDoc.Proofs.MergedBlock

set_option autoImplicit false

/-! Doc blocks inside comments. What is read from a comment cannot close one, and neither can what is
written from it, so a merged block is one comment from its first to its last character. -/

namespace MemberDoc.Source

@[simp] theorem unclosed_nil : Unclosed [] := by
  simp [Unclosed]

theorem unclosed_cons_iff (c : Char) (text : Text) :
    Unclosed (c :: text) ↔ (c = '*' → text.head? ≠ some '/') ∧ Unclosed text := by
  constructor
  · exact fun unclosed => ⟨unclosed.not_slash, unclosed.tail⟩
  · rintro ⟨next, later⟩ closing
    rcases List.infix_cons_iff.mp closing with ⟨behind, start⟩ | deeper
    · obtain ⟨star, slash⟩ := List.cons.inj start
      apply next star.symm
      rw [← slash]
      rfl
    · exact later deeper

theorem unclosed_of_not_mem (text : Text) (absent : '*' ∉ text) : Unclosed text :=
  fun closing => absent (closing.mem List.mem_cons_self)

theorem Unclosed.append {left right : Text} (first : Unclosed left) (second : Unclosed right)
    (apart : left.getLast? = some '*' → right.head? ≠ some '/') : Unclosed (left ++ right) := by
  induction left with
  | nil => exact second
  | cons c left ih =>
      rw [List.cons_append, unclosed_cons_iff]
      cases left with
      | nil => exact ⟨fun star => apart (by rw [star]; rfl), second⟩
      | cons d left =>
          obtain ⟨next, later⟩ := (unclosed_cons_iff c (d :: left)).mp first
          exact ⟨next, ih later apart⟩

/-- A character that is no part of a comment's end keeps two texts apart. -/
theorem Unclosed.append_cons {left right : Text} (first : Unclosed left) (c : Char) (notStar : c ≠ '*')
    (notSlash : c ≠ '/') (second : Unclosed right) : Unclosed (left ++ c :: right) := by
  refine first.append ((unclosed_cons_iff c right).mpr ⟨fun star => absurd star notStar, second⟩) ?_
  intro _
  simpa using notSlash

/-- A text that keeps others apart: it is not empty and has no part of a comment's end. -/
def isDivider (separator : Text) : Bool :=
  !separator.isEmpty && separator.all fun c => c != '*' && c != '/'

theorem Unclosed.append_divider {left right : Text} (first : Unclosed left) (separator : Text)
    (divides : isDivider separator = true) (second : Unclosed right) : Unclosed (left ++ separator ++ right) := by
  induction separator generalizing left with
  | nil => cases divides
  | cons c separator ih =>
      simp only [isDivider, List.isEmpty_cons, Bool.not_false, Bool.true_and, List.all_cons, Bool.and_eq_true,
        bne_iff_ne] at divides
      obtain ⟨⟨notStar, notSlash⟩, neutral⟩ := divides
      cases separator with
      | nil =>
          rw [List.append_assoc]
          exact first.append_cons c notStar notSlash second
      | cons d separator =>
          have longer := first.append_cons c notStar notSlash unclosed_nil
          rw [List.append_cons]
          exact ih longer (by rw [isDivider, neutral]; rfl)

theorem unclosed_joinWith (separator : Text) (divides : isDivider separator = true) (pieces : List Text)
    (all : ∀ piece ∈ pieces, Unclosed piece) : Unclosed (Text.joinWith separator pieces) := by
  induction pieces with
  | nil => exact unclosed_nil
  | cons piece pieces ih =>
      have here := all piece List.mem_cons_self
      cases pieces with
      | nil =>
          simpa using here
      | cons next pieces =>
          rw [Text.joinWith_cons_cons]
          exact here.append_divider separator divides
            (ih fun other member => all other (List.mem_cons_of_mem piece member))

theorem unclosed_flatMap {Piece : Type} (pieces : List Piece) (text : Piece → Text)
    (all : ∀ piece ∈ pieces, Unclosed (text piece) ∧ (text piece).head? ≠ some '/') :
    Unclosed (pieces.flatMap text) ∧ (pieces.flatMap text).head? ≠ some '/' := by
  induction pieces with
  | nil => exact ⟨unclosed_nil, by simp⟩
  | cons piece pieces ih =>
      obtain ⟨here, start⟩ := all piece List.mem_cons_self
      obtain ⟨later, next⟩ := ih fun other member => all other (List.mem_cons_of_mem piece member)
      rw [List.flatMap_cons]
      refine ⟨here.append later fun _ => next, ?_⟩
      rw [List.head?_append]
      cases known : (text piece).head? with
      | none => exact next
      | some c =>
          rw [known] at start
          exact start

private theorem Unclosed.collapse {text : Text} (unclosed : Unclosed text) : Unclosed (Text.collapse text) := by
  apply unclosed_joinWith [' '] rfl
  intro word member
  exact unclosed.of_part ((Text.words_pieces text).1 word member)

theorem Unclosed.lines {text line : Text} (unclosed : Unclosed text) (member : line ∈ Text.lines text) :
    Unclosed line :=
  unclosed.of_part (Text.infix_of_mem_lines text line member)

private theorem Unclosed.stripGutter {line : Text} (unclosed : Unclosed line) :
    Unclosed (DocBlock.stripGutter line) := by
  have trimmed := unclosed.of_part (Text.trimStart_suffix line).isInfix
  unfold DocBlock.stripGutter
  refine Unclosed.of_part ?_ (Text.trimEnd_part _).isInfix
  -- Whether a space is dropped, and in each case whether an asterisk is.
  split
  · rename_i rest spaced
    split at spaced
    · rename_i bare starred
      rw [starred, spaced] at trimmed
      exact trimmed.tail.tail
    · rw [spaced] at trimmed
      exact trimmed.tail
  · split
    · rename_i bare starred
      rw [starred] at trimmed
      exact trimmed.tail
    · exact trimmed

structure IsUnclosedTag (tag : Tag) : Prop where
  name : Unclosed tag.name
  body : ∀ line ∈ tag.body, Unclosed line

theorem isUnclosedTag_of_parse (source : Text) (tag : Tag) (unclosed : Unclosed source)
    (parsed : Tag.parse? source = some tag) : IsUnclosedTag tag := by
  have trimmed : Unclosed (Text.trim source) :=
    (unclosed.of_part (Text.trimStart_suffix source).isInfix).of_part (Text.trimEnd_part _).isInfix
  unfold Tag.parse? at parsed
  split at parsed
  · rename_i rest start
    rw [start] at trimmed
    split at parsed
    · cases parsed
    · cases parsed
      refine ⟨trimmed.tail.of_part ( List.takeWhile_prefix _).isInfix, fun line member => ?_⟩
      obtain ⟨inner, _⟩ := List.mem_filter.mp member
      obtain ⟨whole, inLines, rfl⟩ := List.mem_map.mp inner
      have behind := trimmed.tail.of_part (List.dropWhile_suffix Tag.isNamePart).isInfix
      exact (behind.lines inLines).collapse
  · cases parsed

private theorem IsUnclosedTag.render {tag : Tag} (unclosed : IsUnclosedTag tag) : Unclosed tag.render := by
  rw [Tag.render_eq_joinWith]
  apply unclosed_joinWith ['\n'] rfl
  intro line member
  have marked : Unclosed ('@' :: tag.name) := 
    (unclosed_cons_iff '@' tag.name).mpr ⟨fun star => absurd star (by decide), unclosed.name⟩
  rcases List.mem_cons.mp member with rfl | inside
  · unfold Tag.firstRendered
    cases body : tag.body with
    | nil =>
        rw [List.append_nil]
        exact marked
    | cons first rest =>
        have text := unclosed.body first (by rw [body]; exact List.mem_cons_self)
        dsimp only
        unfold Tag.separator
        split
        · exact marked.append text fun _ => by simp
        · exact marked.append_cons ' ' (by decide) (by decide) text
  · exact unclosed.body line (List.mem_of_mem_tail inside)

private theorem mem_groupTags (lines : List Text) : (∀ line ∈ (DocBlock.groupTags lines).1, line ∈ lines) ∧
    ∀ group ∈ (DocBlock.groupTags lines).2, ∀ line ∈ group, line ∈ lines := by
  induction lines with
  | nil => exact ⟨fun line member => absurd member List.not_mem_nil, fun group member => absurd member List.not_mem_nil⟩
  | cons first lines ih =>
      obtain ⟨loose, groups⟩ := ih
      have later (line : Text) (member : line ∈ lines) : line ∈ first :: lines := List.mem_cons_of_mem first member
      by_cases tagged : DocBlock.startsTag first = true
      · simp only [DocBlock.groupTags, if_pos tagged]
        refine ⟨fun line member => absurd member List.not_mem_nil, fun group member line inside => ?_⟩
        rcases List.mem_cons.mp member with rfl | deeper
        · rcases List.mem_cons.mp inside with rfl | behind
          · exact List.mem_cons_self
          · exact later line (loose line behind)
        · exact later line (groups group deeper line inside)
      · by_cases empty : first = []
        · simp only [DocBlock.groupTags, if_neg tagged, if_pos empty]
          exact ⟨fun line member => later line (loose line member),
            fun group member line inside => later line (groups group member line inside)⟩
        · simp only [DocBlock.groupTags, if_neg tagged, if_neg empty]
          refine ⟨fun line member => ?_, fun group member line inside => later line (groups group member line inside)⟩
          rcases List.mem_cons.mp member with rfl | behind
          · exact List.mem_cons_self
          · exact later line (loose line behind)

structure IsUnclosedBlock (block : DocBlock) : Prop where
  summary : Unclosed block.summary
  tags : ∀ tag ∈ block.tags, IsUnclosedTag tag

private theorem isUnclosedBlock_ofLines (lines : List Text) (all : ∀ line ∈ lines, Unclosed line) :
    IsUnclosedBlock (DocBlock.ofLines lines) := by
  have kept (line : Text) (member : line ∈ lines.dropWhile List.isEmpty) : Unclosed line :=
    all line ((List.dropWhile_sublist _).mem member)
  refine ⟨?_, fun tag member => ?_⟩
  · apply unclosed_joinWith ['\n'] rfl
    intro line member
    exact kept line ((List.takeWhile_sublist _).mem member)
  · obtain ⟨source, inSources, parsed⟩ := List.mem_filterMap.mp member
    obtain ⟨group, inGroups, rfl⟩ := List.mem_map.mp inSources
    refine isUnclosedTag_of_parse _ tag (unclosed_joinWith ['\n'] rfl group ?_) parsed
    intro line inside
    exact kept line ((List.dropWhile_sublist _).mem ((mem_groupTags _).2 group inGroups line inside))

/-- A doc comment from its first to its last character. -/
def IsComment (text : Text) : Prop :=
  ∃ inner, text = ['/', '*'] ++ ('*' :: inner ++ ['*', '/']) ∧ Unclosed ('*' :: inner)

private theorem isUnclosedBlock_of_parse (text : Text) (comment : IsComment text) (block : DocBlock)
    (parsed : DocBlock.parse text = .ok block) : IsUnclosedBlock block := by
  obtain ⟨inner, whole, unclosed⟩ := comment
  have enclosed := DocBlock.parse_enclosed inner
  rw [whole] at parsed
  change DocBlock.parse ('/' :: '*' :: '*' :: (inner ++ ['*', '/'])) = _ at parsed
  rw [enclosed] at parsed
  cases parsed
  apply isUnclosedBlock_ofLines
  intro line member
  obtain ⟨raw, inLines, rfl⟩ := List.mem_map.mp member
  exact (unclosed.tail.lines inLines).stripGutter

private theorem IsUnclosedBlock.isComment {block : DocBlock} (unclosed : IsUnclosedBlock block) :
    IsComment block.serialize := by
  have bodyLines : ∀ line ∈ block.bodyLines, Unclosed line := by
    intro line member
    unfold DocBlock.bodyLines at member
    dsimp only at member
    rw [List.mem_append, List.mem_append] at member
    rcases member with (inSummary | inGap) | inTags
    · exact unclosed.summary.lines inSummary
    · split at inGap
      · cases inGap
      · rw [List.mem_singleton.mp inGap]
        exact unclosed_nil
    · obtain ⟨tag, isTag, inLines⟩ := List.mem_flatMap.mp inTags
      exact (unclosed.tags tag isTag).render.lines inLines
  have commented : ∀ line ∈ block.bodyLines,
      Unclosed (DocBlock.commentLine line) ∧ (DocBlock.commentLine line).head? ≠ some '/' := by
    intro line member
    have gutter : Unclosed [' ', '*'] := by decide
    unfold DocBlock.commentLine
    split
    · exact ⟨by decide, by decide⟩
    · refine ⟨?_, by simp⟩
      have front := gutter.append_cons ' ' (by decide) (by decide) (bodyLines line member)
      have closed := front.append_cons '\n' (by decide) (by decide) unclosed_nil
      simpa using closed
  obtain ⟨body, _⟩ := unclosed_flatMap block.bodyLines DocBlock.commentLine commented
  refine ⟨'\n' :: (block.bodyLines.flatMap DocBlock.commentLine ++ [' ']), DocBlock.serialize_eq block, ?_⟩
  have tail := body.append_cons ' ' (by decide) (by decide) unclosed_nil
  have star : Unclosed ['*'] := by decide
  exact star.append_cons '\n' (by decide) (by decide) tail

private theorem isUnclosedBlock_present (snapshot : Snapshot) (name : Unclosed snapshot.name)
    (comment : ∀ text, snapshot.docComment = some text → IsComment text) :
    IsUnclosedBlock (ClassDoc.present snapshot) := by
  have fallback : IsUnclosedBlock ⟨"Class ".toList ++ snapshot.name, []⟩ := by
    refine ⟨?_, fun tag member => absurd member List.not_mem_nil⟩
    have word : Unclosed "Class".toList := by decide
    have whole := word.append_cons ' ' (by decide) (by decide) name
    exact whole
  unfold ClassDoc.present
  cases known : snapshot.docComment with
  | none => exact fallback
  | some text =>
      rw [Option.map_some]
      cases parsed : DocBlock.parse text with
      | error failure => exact fallback
      | ok block => exact isUnclosedBlock_of_parse text (comment text known) block parsed

theorem isComment_text (snapshot : Snapshot) (registry : Registry) (options : Options)
    (name : Unclosed snapshot.name) (comment : ∀ text, snapshot.docComment = some text → IsComment text)
    (properties : ∀ property ∈ registry.virtualProperties, Unclosed property.tagSource)
    (methods : ∀ method ∈ registry.virtualMethods, Unclosed method.tagSource) :
    IsComment (ClassDoc.text snapshot registry options) := by
  have present := isUnclosedBlock_present snapshot name comment
  apply IsUnclosedBlock.isComment
  refine ⟨present.summary, fun tag member => ?_⟩
  have unsorted := (Tag.mem_sort _ tag).mp member
  rw [ClassDoc.tags_eq, List.mem_append] at unsorted
  rcases unsorted with isKept | isRendered
  · exact present.tags tag (List.mem_filter.mp isKept).1
  · rcases List.mem_append.mp isRendered with inProperties | inMethods
    · obtain ⟨property, isOpen, parsed⟩ := List.mem_filterMap.mp inProperties
      exact isUnclosedTag_of_parse _ tag (properties property (List.mem_filter.mp isOpen).1) parsed
    · obtain ⟨method, isOpen, parsed⟩ := List.mem_filterMap.mp inMethods
      exact isUnclosedTag_of_parse _ tag (methods method (List.mem_filter.mp isOpen).1) parsed

end MemberDoc.Source
