import MemberDoc.DocBlock.Basic
import MemberDoc.Proofs.TagText

set_option autoImplicit false

/-! The text of a doc block. A block that was read is found again in its own text, unless a later
line of one of its tags could itself start a tag. -/

namespace MemberDoc.DocBlock

structure IsSummaryText (line : Text) : Prop where
  summary : isSummaryLine line = true
  unbroken : '\n' ∉ line
  firm : Text.EndsFirm line

theorem IsSummaryText.nonempty {line : Text} (text : IsSummaryText line) : line ≠ [] := by
  intro empty
  have summary := text.summary
  rw [empty] at summary
  cases summary

/-- The form of every block that was read. -/
structure IsNormal (block : DocBlock) : Prop where
  summary : ∃ lines, block.summary = Text.joinWith ['\n'] lines ∧ ∀ line ∈ lines, IsSummaryText line
  tags : ∀ tag ∈ block.tags, tag.IsNormal

private theorem mem_of_mem_stripGutter (c : Char) (line : Text) (member : c ∈ stripGutter line) : c ∈ line := by
  unfold stripGutter at member
  have inner := Text.mem_of_mem_trimEnd c _ member
  apply Text.mem_of_mem_trimStart c line
  split at inner
  · rename_i rest starred
    split at starred
    · rename_i starredRest trimmed
      rw [trimmed, starred]
      simp [inner]
    · rw [starred]
      exact List.mem_cons_of_mem ' ' inner
  · split at inner
    · rename_i rest trimmed
      rw [trimmed]
      exact List.mem_cons_of_mem '*' inner
    · exact inner

private theorem endsFirm_stripGutter (line : Text) : Text.EndsFirm (stripGutter line) :=
  Text.endsFirm_trimEnd _

private theorem isNormal_ofLines (raw : List Text) (unbroken : ∀ line ∈ raw, '\n' ∉ line) :
    (ofLines (raw.map stripGutter)).IsNormal := by
  refine ⟨⟨_, rfl, ?_⟩, ?_⟩
  · intro line member
    have summary := List.all_eq_true.mp List.all_takeWhile line member
    have inLines := (List.dropWhile_sublist _).mem ((List.takeWhile_sublist _).mem member)
    obtain ⟨source, present, rfl⟩ := List.mem_map.mp inLines
    exact ⟨summary, fun feed => unbroken source present (mem_of_mem_stripGutter _ source feed),
      endsFirm_stripGutter source⟩
  · intro tag member
    obtain ⟨source, _, parsed⟩ := List.mem_filterMap.mp member
    exact Tag.isNormal_of_parse source tag parsed

theorem isNormal_of_parse (text : Text) (block : DocBlock) (parsed : parse text = .ok block) :
    block.IsNormal := by
  unfold parse at parsed
  dsimp only at parsed
  split at parsed
  · cases parsed
    exact isNormal_ofLines _ (Text.unbroken_of_mem_lines _)
  · cases parsed

def guttered (line : Text) : Text :=
  if line = [] then [' ', '*'] else [' ', '*', ' '] ++ line

theorem commentLine_eq (line : Text) : commentLine line = guttered line ++ ['\n'] := by
  unfold commentLine guttered
  split
  · rfl
  · rw [List.append_assoc]

private theorem stripGutter_guttered (line : Text) (firm : Text.EndsFirm line) :
    stripGutter (guttered line) = line := by
  unfold guttered
  split
  · rename_i empty
    rw [empty]
    rfl
  · change Text.trimEnd line = line
    exact Text.trimEnd_of_endsFirm line firm

private theorem lines_guttered (lines : List Text) (rest : Text)
    (full : ∀ line ∈ lines, '\n' ∉ line ∧ Text.EndsFirm line) :
    Text.lines (lines.flatMap commentLine ++ rest) = lines.map guttered ++ Text.lines rest := by
  induction lines with
  | nil => rfl
  | cons line lines ih =>
      obtain ⟨unbroken, firm⟩ := full line List.mem_cons_self
      have later := ih fun other member => full other (List.mem_cons_of_mem line member)
      have unbrokenGuttered : '\n' ∉ guttered line := by
        unfold guttered
        split
        · simp
        · simpa using unbroken
      have noReturn : (guttered line).getLast? ≠ some '\r' := by
        unfold guttered
        split
        · simp
        · rename_i nonempty
          exact Tag.noReturn_of_endsFirm _ (Text.endsFirm_append _ line nonempty firm)
      rw [List.flatMap_cons, commentLine_eq, List.append_assoc, List.append_assoc,
        List.singleton_append, Text.lines_lineFeed _ _ unbrokenGuttered noReturn, later]
      rfl

private theorem lines_commented (lines : List Text) (full : ∀ line ∈ lines, '\n' ∉ line ∧ Text.EndsFirm line) :
    (Text.lines ('\n' :: (lines.flatMap commentLine ++ [' ']))).map stripGutter = [] :: (lines ++ [[]]) := by
  have first : Text.lines ('\n' :: (lines.flatMap commentLine ++ [' '])) =
      [] :: Text.lines (lines.flatMap commentLine ++ [' ']) := by
    rw [Text.lines]
  rw [first, lines_guttered lines [' '] full, List.map_cons, List.map_append, List.map_map]
  congr 2
  conv => rhs; rw [← List.map_id lines]
  exact List.map_congr_left fun line member => stripGutter_guttered line (full line member).2

theorem trim_comment (inner : Text) :
    Text.trim ('/' :: '*' :: (inner ++ ['*', '/'])) = '/' :: '*' :: (inner ++ ['*', '/']) := by
  apply Text.trim_of_firm '/' _ rfl
  have last := Text.endsFirm_concat ('/' :: '*' :: (inner ++ ['*'])) '/' rfl
  simpa using last

theorem parse_enclosed (inner : Text) :
    parse ('/' :: '*' :: '*' :: (inner ++ ['*', '/'])) =
      .ok (ofLines ((Text.lines inner).map stripGutter)) := by
  have trimmed := trim_comment ('*' :: inner)
  rw [List.cons_append] at trimmed
  have isComment : isDocComment ('/' :: '*' :: '*' :: (inner ++ ['*', '/'])) = true := by
    simp [isDocComment, Text.startsWith, Text.endsWith, Text.after?]
  have cut : (('/' :: '*' :: '*' :: (inner ++ ['*', '/'])).drop 3).take
      (('/' :: '*' :: '*' :: (inner ++ ['*', '/'])).length - 5) = inner := by
    have size : ('/' :: '*' :: '*' :: (inner ++ ['*', '/'])).length - 5 = inner.length := by
      simp only [List.length_append, List.length_cons, List.length_nil]
      omega
    rw [size]
    exact List.take_left
  unfold parse
  dsimp only
  rw [trimmed, isComment, if_pos rfl, cut]

theorem serialize_eq (block : DocBlock) :
    block.serialize =
      '/' :: '*' :: '*' :: (('\n' :: (block.bodyLines.flatMap commentLine ++ [' '])) ++ ['*', '/']) := by
  unfold serialize
  simp only [List.cons_append, List.nil_append, List.append_assoc]

private theorem groupTags_continued (lines rest : List Text)
    (continued : ∀ line ∈ lines, line ≠ [] ∧ line.head? ≠ some '@') :
    groupTags (lines ++ rest) = (lines ++ (groupTags rest).1, (groupTags rest).2) := by
  induction lines with
  | nil => rfl
  | cons line lines ih =>
      obtain ⟨nonempty, notTag⟩ := continued line List.mem_cons_self
      have later := ih fun other member => continued other (List.mem_cons_of_mem line member)
      have startsNone : startsTag line = false := by
        unfold startsTag
        split
        · exact absurd rfl notTag
        · rfl
      rw [List.cons_append, groupTags, later]
      simp only [startsNone, nonempty, Bool.false_eq_true, if_false]
      rfl

/-- Lines that start with a tag do not go on with what stands before them. -/
theorem groupTags_append (left right : List Text) (tagged : (groupTags right).1 = []) :
    groupTags (left ++ right) = ((groupTags left).1, (groupTags left).2 ++ (groupTags right).2) := by
  induction left with
  | nil => exact Prod.ext tagged rfl
  | cons line left ih =>
      rw [List.cons_append, groupTags, groupTags, ih]
      by_cases starts : startsTag line = true
      · simp only [if_pos starts, List.cons_append]
      · by_cases empty : line = []
        · simp only [if_neg starts, if_pos empty]
        · simp only [if_neg starts, if_neg empty]

/-- The tags that reading finds in the lines of one tag. -/
def reopened (tag : Tag) : List Tag :=
  ((groupTags tag.renderedLines).2.map (Text.joinWith ['\n'])).filterMap Tag.parse?

@[simp] theorem groupTags_renderedLines (tag : Tag) : (groupTags tag.renderedLines).1 = [] := rfl

theorem groupTags_rendered (tags : List Tag) :
    groupTags (tags.flatMap Tag.renderedLines ++ [[]]) =
      ([], tags.flatMap fun tag => (groupTags tag.renderedLines).2) := by
  induction tags with
  | nil => rfl
  | cons tag tags ih =>
      rw [List.flatMap_cons, List.flatMap_cons, List.append_assoc, groupTags_append _ _ (by rw [ih]), ih,
        groupTags_renderedLines]

theorem parse_groups (tags : List Tag) :
    ((tags.flatMap fun tag => (groupTags tag.renderedLines).2).map (Text.joinWith ['\n'])).filterMap Tag.parse? =
      tags.flatMap reopened := by
  induction tags with
  | nil => rfl
  | cons tag tags ih =>
      rw [List.flatMap_cons, List.flatMap_cons, List.map_append, List.filterMap_append, ih]
      rfl

private theorem ofLines_summary (summary rest : List Text) (isSummary : ∀ line ∈ summary, IsSummaryText line)
    (nonempty : summary ≠ []) :
    ofLines ([] :: (summary ++ [] :: rest)) =
      ⟨Text.joinWith ['\n'] summary,
        ((groupTags rest).2.map (Text.joinWith ['\n'])).filterMap Tag.parse?⟩ := by
  have entered : ([] :: (summary ++ [] :: rest)).dropWhile List.isEmpty = summary ++ [] :: rest := by
    cases summary with
    | nil => exact absurd rfl nonempty
    | cons line lines =>
        have full := (isSummary line List.mem_cons_self).nonempty
        simp [full]
  have isLine : ∀ line ∈ summary, isSummaryLine line = true := fun line member =>
    (isSummary line member).summary
  have ended : isSummaryLine [] = false := rfl
  have skipped : (groupTags ([] :: rest)).2 = (groupTags rest).2 := rfl
  unfold ofLines
  dsimp only
  rw [entered, List.takeWhile_append_of_pos isLine, List.dropWhile_append_of_pos isLine,
    List.takeWhile_cons, List.dropWhile_cons, ended]
  simp only [Bool.false_eq_true, if_false, List.append_nil, skipped]

private theorem ofLines_tags (tags : List Tag) :
    ofLines ([] :: (tags.flatMap Tag.renderedLines ++ [[]])) = ⟨[], tags.flatMap reopened⟩ := by
  cases tags with
  | nil => rfl
  | cons tag tags =>
      have grouped := groupTags_rendered (tag :: tags)
      have parsed := parse_groups (tag :: tags)
      unfold ofLines
      have entered : ([] :: ((tag :: tags).flatMap Tag.renderedLines ++ [[]])).dropWhile List.isEmpty =
          (tag :: tags).flatMap Tag.renderedLines ++ [[]] := rfl
      have noSummary : ((tag :: tags).flatMap Tag.renderedLines ++ [[]]).takeWhile isSummaryLine = [] := rfl
      have allTags : ((tag :: tags).flatMap Tag.renderedLines ++ [[]]).dropWhile isSummaryLine =
          (tag :: tags).flatMap Tag.renderedLines ++ [[]] := rfl
      dsimp only
      rw [entered, noSummary, allTags, grouped, parsed]
      rfl

theorem lines_summary (lines : List Text) (isSummary : ∀ line ∈ lines, IsSummaryText line) :
    Text.lines (Text.joinWith ['\n'] lines) = lines := by
  apply Text.lines_joinWith
  intro line member
  have text := isSummary line member
  exact ⟨text.nonempty, text.unbroken, Tag.noReturn_of_endsFirm line text.firm⟩

theorem flatMap_lines_render (tags : List Tag) (normal : ∀ tag ∈ tags, tag.IsNormal) :
    (tags.flatMap fun tag => Text.lines tag.render) = tags.flatMap Tag.renderedLines := by
  induction tags with
  | nil => rfl
  | cons tag tags ih =>
      rw [List.flatMap_cons, List.flatMap_cons, (normal tag List.mem_cons_self).lines_render,
        ih fun other member => normal other (List.mem_cons_of_mem tag member)]

private theorem IsNormal.full_bodyLines {block : DocBlock} (normal : block.IsNormal) :
    ∀ line ∈ block.bodyLines, '\n' ∉ line ∧ Text.EndsFirm line := by
  obtain ⟨lines, summary, isSummary⟩ := normal.summary
  intro line member
  unfold bodyLines at member
  dsimp only at member
  rw [summary, lines_summary lines isSummary, flatMap_lines_render block.tags normal.tags,
    List.mem_append, List.mem_append] at member
  rcases member with (inSummary | inGap) | inTags
  · exact ⟨(isSummary line inSummary).unbroken, (isSummary line inSummary).firm⟩
  · have empty : line = [] := by
      split at inGap
      · cases inGap
      · exact List.mem_singleton.mp inGap
    rw [empty]
    exact ⟨List.not_mem_nil, Text.endsFirm_nil⟩
  · obtain ⟨tag, present, inTag⟩ := List.mem_flatMap.mp inTags
    exact ((normal.tags tag present).isLine line inTag).2

theorem IsNormal.parse_serialize_reopened {block : DocBlock} (normal : block.IsNormal) :
    parse block.serialize = .ok ⟨block.summary, block.tags.flatMap reopened⟩ := by
  have full := normal.full_bodyLines
  rw [serialize_eq, parse_enclosed, lines_commented block.bodyLines full]
  congr 1
  obtain ⟨lines, summary, isSummary⟩ := normal.summary
  unfold bodyLines
  dsimp only
  rw [summary, lines_summary lines isSummary, flatMap_lines_render block.tags normal.tags]
  cases lines with
  | nil =>
      rw [if_pos (Or.inl rfl), List.nil_append, List.nil_append, ofLines_tags]
      rfl
  | cons line lines =>
      cases known : block.tags with
      | nil =>
          rw [if_pos (Or.inr rfl), List.append_nil, List.flatMap_nil, List.append_nil,
            ofLines_summary (line :: lines) [] isSummary (List.cons_ne_nil line lines)]
          rfl
      | cons tag tags =>
          rw [if_neg (by simp), List.append_assoc, List.append_assoc, List.singleton_append,
            List.cons_append, ← List.cons_append]
          rw [ofLines_summary (line :: lines) _ isSummary (List.cons_ne_nil line lines),
            groupTags_rendered (tag :: tags), parse_groups (tag :: tags)]

/-- The part of a tag before the first line that could start another tag. -/
def opening (tag : Tag) : Tag :=
  ⟨tag.name, tag.body.take 1 ++ (groupTags tag.body.tail).1⟩

theorem mem_loose (lines : List Text) (line : Text) (member : line ∈ (groupTags lines).1) :
    line ∈ lines ∧ startsTag line = false := by
  induction lines with
  | nil => cases member
  | cons first lines ih =>
      rw [groupTags] at member
      by_cases starts : startsTag first = true
      · simp only [if_pos starts, List.not_mem_nil] at member
      · by_cases empty : first = []
        · simp only [if_neg starts, if_pos empty] at member
          exact ⟨List.mem_cons_of_mem first (ih member).1, (ih member).2⟩
        · simp only [if_neg starts, if_neg empty] at member
          rcases List.mem_cons.mp member with rfl | later
          · exact ⟨List.mem_cons_self, Bool.eq_false_iff.mpr starts⟩
          · exact ⟨List.mem_cons_of_mem first (ih later).1, (ih later).2⟩

private theorem isNormal_opening {tag : Tag} (normal : tag.IsNormal) : (opening tag).IsNormal := by
  refine ⟨normal.named, normal.solid, ?_⟩
  intro line member
  rcases List.mem_append.mp member with inFirst | inLoose
  · exact normal.collapsed line (List.mem_of_mem_take inFirst)
  · exact normal.collapsed line (List.mem_of_mem_tail (mem_loose _ line inLoose).1)

private theorem renderedLines_opening (tag : Tag) :
    (opening tag).renderedLines = tag.firstRendered :: (groupTags tag.body.tail).1 := by
  unfold Tag.renderedLines Tag.firstRendered opening
  cases tag.body with
  | nil => rfl
  | cons first rest => rfl

theorem reopened_eq {tag : Tag} (normal : tag.IsNormal) :
    reopened tag =
      opening tag :: ((groupTags tag.body.tail).2.map (Text.joinWith ['\n'])).filterMap Tag.parse? := by
  have grouped : (groupTags tag.renderedLines).2 = (opening tag).renderedLines :: (groupTags tag.body.tail).2 := by
    rw [renderedLines_opening]
    rfl
  unfold reopened
  rw [grouped, List.map_cons, ← Tag.render_eq_joinWith, List.filterMap_cons, (isNormal_opening normal).parse_render]

theorem reopened_of_isClosed {tag : Tag} (normal : tag.IsNormal) (closed : tag.IsClosed) : reopened tag = [tag] := by
  have grouped := groupTags_continued tag.body.tail [] fun line member =>
    ⟨(normal.collapsed line (List.mem_of_mem_tail member)).nonempty, closed line member⟩
  rw [List.append_nil] at grouped
  rw [reopened_eq normal, opening, grouped]
  cases tag with
  | mk name body => cases body <;> simp [groupTags]

/-- Reading undoes writing on blocks in normal form with closed tags. -/
theorem IsNormal.parse_serialize {block : DocBlock} (normal : block.IsNormal)
    (closed : ∀ tag ∈ block.tags, tag.IsClosed) : parse block.serialize = .ok block := by
  have same : block.tags.flatMap reopened = block.tags.flatMap fun tag => [tag] := by
    rw [List.flatMap_def, List.flatMap_def]
    congr 1
    exact List.map_congr_left fun tag member => reopened_of_isClosed (normal.tags tag member) (closed tag member)
  rw [normal.parse_serialize_reopened, same, List.flatMap_singleton']

end MemberDoc.DocBlock
