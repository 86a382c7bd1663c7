import MemberDoc.Proofs.MergedComment
import MemberDoc.Proofs.UpdateCourse

set_option autoImplicit false

/-! Doc comments as they are found in a source, and as they are read as blocks. The two agree about which comments are
doc comments, so the comment of a class is never given up for the summary of a class that has none. -/

namespace MemberDoc.Source

/-- A text that is a doc comment to every reader. Offsets and lengths are in bytes. -/
structure IsDocText (text : Text) : Prop where
  starts : Text.startsWith ['/', '*', '*'] text = true
  ends : Text.endsWith ['*', '/'] text = true
  closedLast : ∀ lead tail, text = lead ++ ['*', '/'] ++ tail → Text.byteLength lead + 2 = Text.byteLength text
  long : 5 ≤ Text.byteLength text
  readable : ∃ block, DocBlock.parse text = .ok block

theorem IsComment.isDocText {text : Text} (isComment : IsComment text) : IsDocText text where
  starts := by
    obtain ⟨inner, rfl, _⟩ := isComment
    rfl
  ends := by
    obtain ⟨inner, rfl, _⟩ := isComment
    simp [Text.endsWith, Text.startsWith, Text.after?]
  closedLast lead tail whole := by
    have last := isComment.tail_eq_nil lead tail whole
    rw [whole, last, List.append_nil, Text.byteLength_append]
    rfl
  long := by
    obtain ⟨inner, rfl, _⟩ := isComment
    have opening : Text.byteLength ['/', '*'] = 2 := rfl
    have closing : Text.byteLength ['*', '/'] = 2 := rfl
    have positive := Text.byteLength_pos '*' inner
    grind
  readable := by
    obtain ⟨inner, rfl, _⟩ := isComment
    exact ⟨_, DocBlock.parse_enclosed inner⟩

private theorem parse_other_comment (c : Char) (inner : Text) (other : c ≠ '*') (block : DocBlock) :
    DocBlock.parse ('/' :: '*' :: (c :: inner ++ ['*', '/'])) ≠ .ok block := by
  have notStarted : DocBlock.isDocComment ('/' :: '*' :: (c :: inner ++ ['*', '/'])) = false := by
    simp [DocBlock.isDocComment, Text.startsWith, Text.after?, other]
  unfold DocBlock.parse
  dsimp only
  rw [DocBlock.trim_comment, notStarted]
  intro impossible
  cases impossible

/-- A comment that has been opened is taken for a doc comment exactly if it can be read as a block. -/
theorem docCommentText_isSome_iff (inner rest : Text) (unclosed : Unclosed inner) :
    (docCommentText? (inner ++ ['*', '/'] ++ rest)).isSome = true ↔
      ∃ block, DocBlock.parse (['/', '*'] ++ (inner ++ ['*', '/'])) = .ok block := by
  unfold docCommentText?
  rw [splitFirst_closing inner rest unclosed]
  cases inner with
  | nil => exact iff_of_false nofun fun ⟨block, read⟩ => nomatch read
  | cons c inner =>
      by_cases star : c = '*'
      · subst star
        exact iff_of_true rfl ⟨_, DocBlock.parse_enclosed inner⟩
      · refine iff_of_false ?_ fun ⟨block, read⟩ => parse_other_comment c inner star block read
        split
        · rename_i same
          cases same
          exact absurd rfl star
        · exact nofun

end MemberDoc.Source

namespace MemberDoc

open Source

private theorem Updater.reflected_of_seen (updater : Updater) (registry : Registry) (tree : Tree) (snapshot : Snapshot)
    (seen : (updater.run registry tree).seen = some snapshot) :
    updater.reflector tree updater.qualifiedName = .ok snapshot := by
  have course := updater.course_run registry tree
  generalize updater.run registry tree = run at course seen
  cases course with
  | failed cause reflected => cases seen
  | skipped found reflected closed => cases seen
  | unchanged found reflected => exact reflected.trans (congrArg Except.ok (Option.some.inj seen))
  | pending found reflected => exact reflected.trans (congrArg Except.ok (Option.some.inj seen))
  | written found after reflected => exact reflected.trans (congrArg Except.ok (Option.some.inj seen))
  | writeFailed found reason reflected => exact reflected.trans (congrArg Except.ok (Option.some.inj seen))

namespace ClassDoc

/-- The block that a class starts from: that of its comment, or one made from its name if it has none. -/
inductive StartsFrom (snapshot : Snapshot) : DocBlock → Prop where
  | uncommented (missing : snapshot.docComment = none) : StartsFrom snapshot ⟨"Class ".toList ++ snapshot.name, []⟩
  | commented (text : Text) (block : DocBlock) (known : snapshot.docComment = some text)
      (parsed : DocBlock.parse text = .ok block) : StartsFrom snapshot block

private theorem startsFrom_present (classes : ClassMap) (tree : Tree) (className : Text) (snapshot : Snapshot)
    (reflected : classes.reflect tree className = .ok snapshot) : StartsFrom snapshot (present snapshot) := by
  unfold present
  cases known : snapshot.docComment with
  | none => exact .uncommented known
  | some text =>
      have isComment := (classes.unclosed_of_reflect tree className snapshot reflected).2 text known
      obtain ⟨block, parsed⟩ := isComment.isDocText.readable
      rw [Option.map_some, parsed]
      exact .commented text block known parsed

/-- The comment that is found for a class stands in its source, is a doc comment to every reader and can be read as a
block; and of all comments those are taken for doc comments that can be. So whatever a run writes for a class, its
summary is that of the comment of the class, and one made from its name only if there is no comment. -/
theorem attached_comment_is_block :
    (∀ source className outline comment, Source.outline source className = .ok outline →
        outline.docComment = some comment →
          IsDocText comment.text ∧ ∃ before behind, source = before ++ comment.text ++ behind ∧
            Text.byteLength before = comment.start) ∧
      (∀ inner rest, Unclosed inner →
        ((docCommentText? (inner ++ ['*', '/'] ++ rest)).isSome = true ↔
          ∃ block, DocBlock.parse (['/', '*'] ++ (inner ++ ['*', '/'])) = .ok block)) ∧
      ∀ (classes : ClassMap) (updater : Updater) (registry : Registry) (tree : Tree) (snapshot : Snapshot),
        updater.reflector = classes.reflect → (updater.run registry tree).seen = some snapshot →
          ∃ block, StartsFrom snapshot block ∧ ∀ registry options, ∃ tags,
            ClassDoc.text snapshot registry options = DocBlock.serialize ⟨block.summary, tags⟩ := by
  refine ⟨?_, docCommentText_isSome_iff, ?_⟩
  · intro source className outline comment known attached
    obtain ⟨site, located, rfl⟩ := (outline_eq_ok_iff source className outline).mp known
    obtain ⟨isComment, place⟩ := isComment_of_docComment source className site located comment attached
    exact ⟨isComment.isDocText, place⟩
  · intro classes updater registry tree snapshot through seen
    have reflected := updater.reflected_of_seen registry tree snapshot seen
    rw [through] at reflected
    exact ⟨present snapshot, startsFrom_present classes tree _ snapshot reflected, fun registry options => ⟨_, rfl⟩⟩

def star : Snapshot where
  name := "\\Star".toList
  instantiable := true
  properties := []
  methods := []
  docComment := some "/***/".toList
  source := "<?php\n/***/\n#[A(']')] final class Star \x7b\x7d\n".toList
  path := ⟨"/Star.php".toList⟩

def starSite : Site :=
  (site? star.source "Star".toList).get (by decide +kernel)

def starUpdater : Updater where
  className := "Star".toList
  options := ⟨false, false, false⟩
  reflector := (ClassMap.empty.insert "Star".toList star.path).reflect
  label := []
  contributors := []

def starTree : Tree :=
  ⟨[(["Star.php".toList], .document (.text star.source) true)]⟩

theorem attached_comment_is_block_star :
    (Source.outline star.source "Star".toList = .ok (starSite.outline star.source) ∧
        (starSite.outline star.source).docComment = some ⟨6, "/***/".toList⟩ ∧
        IsDocText "/***/".toList ∧ ∃ before behind, star.source = before ++ "/***/".toList ++ behind ∧
          Text.byteLength before = 6) ∧
      (Unclosed ['*'] ∧ ((docCommentText? (['*'] ++ ['*', '/'] ++ [])).isSome = true ↔
        ∃ block, DocBlock.parse (['/', '*'] ++ (['*'] ++ ['*', '/'])) = .ok block)) ∧
      (starUpdater.run Registry.empty starTree).seen = some star ∧
        ∃ block, StartsFrom star block ∧ ∀ registry options, ∃ tags,
          ClassDoc.text star registry options = DocBlock.serialize ⟨block.summary, tags⟩ := by
  obtain ⟨found, agreed, used⟩ := attached_comment_is_block
  have outlined : Source.outline star.source "Star".toList = .ok (starSite.outline star.source) :=
    (outline_eq_ok_iff _ _ _).mpr ⟨starSite, by decide +kernel, rfl⟩
  have attached : (starSite.outline star.source).docComment = some ⟨6, "/***/".toList⟩ := by decide +kernel
  have unclosed : Unclosed ['*'] := by decide
  have seen : (starUpdater.run Registry.empty starTree).seen = some star := by decide +kernel
  exact ⟨⟨outlined, attached, found _ _ _ _ outlined attached⟩, ⟨unclosed, agreed ['*'] [] unclosed⟩, seen,
    used (ClassMap.empty.insert "Star".toList star.path) starUpdater Registry.empty starTree star rfl seen⟩

end ClassDoc
end MemberDoc
