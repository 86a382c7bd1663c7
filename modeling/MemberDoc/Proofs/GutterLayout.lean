import MemberDoc.Proofs.BlockText
import MemberDoc.Proofs.TextSearch

set_option autoImplicit false

/-! The layout of a doc comment. How far its lines are indented and by which of the two line ends they are
separated shows nowhere in the block that is read from it, because a line is taken without its gutter and
without blanks at its end. -/

namespace MemberDoc.Text

def IsIndentation (text : Text) : Prop :=
  ∀ c ∈ text, c = ' ' ∨ c = '\t'

def IsLineEnd (text : Text) : Prop :=
  text = ['\n'] ∨ text = ['\r', '\n']

/-- A text and the same one with other line ends, behind each of which spaces and tabs may have been put. -/
inductive Relaid : Text → Text → Prop where
  | done : Relaid [] []
  | same (c : Char) (rest other : Text) (unbroken : c ≠ '\n') (later : Relaid rest other) :
      Relaid (c :: rest) (c :: other)
  | broken (ending indentation rest other : Text) (ends : IsLineEnd ending) (pads : IsIndentation indentation)
      (later : Relaid rest other) : Relaid ('\n' :: rest) (ending ++ (indentation ++ other))

theorem IsIndentation.blank {text : Text} (pads : IsIndentation text) (c : Char) (member : c ∈ text) :
    isBlank c = true := by
  rcases pads c member with rfl | rfl <;> rfl

theorem IsLineEnd.blank {text : Text} (ends : IsLineEnd text) (c : Char) (member : c ∈ text) : isBlank c = true := by
  rcases ends with rfl | rfl
  · rw [List.mem_singleton.mp member]
    rfl
  · rcases List.mem_cons.mp member with rfl | last
    · rfl
    · rw [List.mem_singleton.mp last]
      rfl

private theorem solid_behind_blanks (pad left right other : Text) (c : Char) (blank : ∀ d ∈ pad, isBlank d = true)
    (solid : isBlank c = false) (whole : left ++ c :: right = pad ++ other) :
    ∃ more, left = pad ++ more ∧ other = more ++ c :: right := by
  induction pad generalizing left with
  | nil => exact ⟨left, rfl, whole.symm⟩
  | cons d pad ih =>
      obtain ⟨first, later⟩ := List.forall_mem_cons.mp blank
      cases left with
      | nil =>
          obtain ⟨rfl, _⟩ := List.cons.inj whole
          rw [solid] at first
          cases first
      | cons e left =>
          obtain ⟨rfl, inner⟩ := List.cons.inj whole
          obtain ⟨more, rfl, known⟩ := ih left later inner
          exact ⟨more, rfl, known⟩

namespace Relaid

private theorem piece (lead : Text) {rest other : Text} (unbroken : '\n' ∉ lead) (later : Relaid rest other) :
    Relaid (lead ++ rest) (lead ++ other) := by
  induction lead with
  | nil => exact later
  | cons c lead ih =>
      have solid : c ≠ '\n' := by
        rintro rfl
        exact unbroken List.mem_cons_self
      exact .same c _ _ solid (ih fun member => unbroken (List.mem_cons_of_mem c member))

/-- Where a text is cut before a character that ends no line, the other one can be cut too. -/
theorem cut {left right other : Text} (c : Char) (solid : isBlank c = false)
    (relaid : Relaid (left ++ c :: right) other) :
    ∃ otherLeft otherRight, other = otherLeft ++ c :: otherRight ∧ Relaid left otherLeft ∧
      Relaid right otherRight := by
  generalize whole : left ++ c :: right = text at relaid
  induction relaid generalizing left with
  | done => cases left <;> cases whole
  | same d rest other unbroken later ih =>
      cases left with
      | nil =>
          obtain ⟨rfl, rfl⟩ := List.cons.inj whole
          exact ⟨[], other, rfl, .done, later⟩
      | cons first left =>
          obtain ⟨rfl, inner⟩ := List.cons.inj whole
          obtain ⟨otherLeft, otherRight, rfl, before, behind⟩ := ih inner
          exact ⟨first :: otherLeft, otherRight, rfl, .same first _ _ unbroken before, behind⟩
  | broken ending indentation rest other ends pads later ih =>
      cases left with
      | nil =>
          obtain ⟨rfl, _⟩ := List.cons.inj whole
          cases solid
      | cons first left =>
          obtain ⟨rfl, inner⟩ := List.cons.inj whole
          obtain ⟨otherLeft, otherRight, rfl, before, behind⟩ := ih inner
          refine ⟨ending ++ (indentation ++ otherLeft), otherRight, ?_, .broken _ _ _ _ ends pads before, behind⟩
          simp only [List.append_assoc]

/-- The converse of `cut`: what was put in is blank, so no other character has been added. -/
theorem cut_back {text left right : Text} (c : Char) (solid : isBlank c = false)
    (relaid : Relaid text (left ++ c :: right)) :
    ∃ ownLeft ownRight, text = ownLeft ++ c :: ownRight ∧ Relaid ownLeft left ∧ Relaid ownRight right := by
  generalize whole : left ++ c :: right = other at relaid
  induction relaid generalizing left with
  | done => cases left <;> cases whole
  | same d rest other unbroken later ih =>
      cases left with
      | nil =>
          obtain ⟨rfl, rfl⟩ := List.cons.inj whole
          exact ⟨[], rest, rfl, .done, later⟩
      | cons first left =>
          obtain ⟨rfl, inner⟩ := List.cons.inj whole
          obtain ⟨ownLeft, ownRight, rfl, before, behind⟩ := ih inner
          exact ⟨first :: ownLeft, ownRight, rfl, .same first _ _ unbroken before, behind⟩
  | broken ending indentation rest other ends pads later ih =>
      have added : ∀ d ∈ ending ++ indentation, isBlank d = true := by
        intro d member
        rcases List.mem_append.mp member with inEnd | inPad
        · exact ends.blank d inEnd
        · exact pads.blank d inPad
      rw [← List.append_assoc] at whole
      obtain ⟨more, rfl, inner⟩ := solid_behind_blanks _ left right other c added solid whole
      obtain ⟨ownLeft, ownRight, rfl, before, behind⟩ := ih inner.symm
      refine ⟨'\n' :: ownLeft, ownRight, rfl, ?_, behind⟩
      rw [List.append_assoc]
      exact .broken _ _ _ _ ends pads before

private theorem next {c : Char} {right other : Text} (solid : isBlank c = false) (relaid : Relaid (c :: right) other) :
    ∃ otherRight, other = c :: otherRight ∧ Relaid right otherRight := by
  cases relaid with
  | same _ _ otherRight _ later => exact ⟨otherRight, rfl, later⟩
  | broken => cases solid

private theorem next_back {text right : Text} {c : Char} (solid : isBlank c = false)
    (relaid : Relaid text (c :: right)) :
    ∃ ownRight, text = c :: ownRight ∧ Relaid ownRight right := by
  have cut : Relaid text ([] ++ c :: right) := relaid
  obtain ⟨ownLeft, ownRight, rfl, before, behind⟩ := cut.cut_back c solid
  generalize empty : ([] : Text) = left at before
  cases before with
  | done => exact ⟨ownRight, rfl, behind⟩
  | same => cases empty
  | broken ending indentation rest other ends => rcases ends with rfl | rfl <;> cases empty

/-- A comment stays a comment, with blanks around it if there were blanks. -/
theorem enclosed {front inner behind other : Text}
    (relaid : Relaid (front ++ '/' :: '*' :: '*' :: (inner ++ '*' :: '/' :: behind)) other) :
    ∃ newFront newInner newBehind,
      other = newFront ++ '/' :: '*' :: '*' :: (newInner ++ '*' :: '/' :: newBehind) ∧
        Relaid front newFront ∧ Relaid inner newInner ∧ Relaid behind newBehind := by
  obtain ⟨newFront, _, rfl, before, opened⟩ := relaid.cut '/' rfl
  obtain ⟨_, rfl, starred⟩ := opened.next rfl
  obtain ⟨_, rfl, within⟩ := starred.next rfl
  obtain ⟨newInner, _, rfl, inside, closing⟩ := within.cut '*' rfl
  obtain ⟨newBehind, rfl, after⟩ := closing.next rfl
  exact ⟨newFront, newInner, newBehind, rfl, before, inside, after⟩

private theorem enclosed_back {text front inner behind : Text}
    (relaid : Relaid text (front ++ '/' :: '*' :: '*' :: (inner ++ '*' :: '/' :: behind))) :
    ∃ ownFront ownInner ownBehind,
      text = ownFront ++ '/' :: '*' :: '*' :: (ownInner ++ '*' :: '/' :: ownBehind) ∧
        Relaid ownFront front ∧ Relaid ownInner inner ∧ Relaid ownBehind behind := by
  obtain ⟨ownFront, _, rfl, before, opened⟩ := relaid.cut_back '/' rfl
  obtain ⟨_, rfl, starred⟩ := opened.next_back rfl
  obtain ⟨_, rfl, within⟩ := starred.next_back rfl
  obtain ⟨ownInner, _, rfl, inside, closing⟩ := within.cut_back '*' rfl
  obtain ⟨ownBehind, rfl, after⟩ := closing.next_back rfl
  exact ⟨ownFront, ownInner, ownBehind, rfl, before, inside, after⟩

theorem blank_iff {text other : Text} (relaid : Relaid text other) :
    (∀ c ∈ other, isBlank c = true) ↔ ∀ c ∈ text, isBlank c = true := by
  induction relaid with
  | done => exact Iff.rfl
  | same c rest other _ _ ih => rw [List.forall_mem_cons, List.forall_mem_cons, ih]
  | broken ending indentation rest other ends pads _ ih =>
      rw [List.forall_mem_append, List.forall_mem_append, List.forall_mem_cons, ih]
      exact ⟨fun blank => ⟨rfl, blank.2.2⟩, fun blank => ⟨ends.blank, pads.blank, blank.2⟩⟩

end Relaid

theorem lines_cons (c : Char) (rest : Text) (notFeed : c ≠ '\n') (notReturn : c ≠ '\r') :
    lines (c :: rest) = consHead c (lines rest) :=
  lines.eq_4 c rest notFeed (fun _ same _ => notReturn same)

/-- Only the first line of a text is longer when the text is indented. -/
theorem lines_indented (indentation text line : Text) (rest : List Text) (pads : IsIndentation indentation)
    (known : lines text = line :: rest) : lines (indentation ++ text) = (indentation ++ line) :: rest := by
  induction indentation with
  | nil => exact known
  | cons c indentation ih =>
      obtain ⟨first, later⟩ := List.forall_mem_cons.mp pads
      rw [List.cons_append, lines_cons c _ (by rcases first with rfl | rfl <;> decide)
        (by rcases first with rfl | rfl <;> decide), ih later]
      rfl

end MemberDoc.Text

namespace MemberDoc.DocBlock

open Text (Relaid isBlank)

theorem stripGutter_indented (indentation line : Text) (blank : ∀ c ∈ indentation, isBlank c = true) :
    stripGutter (indentation ++ line) = stripGutter line := by
  unfold stripGutter
  rw [Text.trimStart_pad indentation line blank]

/-- Lines that agree without their gutters, but for an empty one that may follow. -/
def SameRows (lines others : List Text) : Prop :=
  others.map stripGutter = lines.map stripGutter ∨ others.map stripGutter = lines.map stripGutter ++ [[]]

/-- An empty line at the end belongs to no summary and to no tag. -/
@[simp] theorem ofLines_emptyLast (rows : List Text) : ofLines (rows ++ [[]]) = ofLines rows := by
  have ended : isSummaryLine [] = false := rfl
  unfold ofLines
  dsimp only
  rw [List.dropWhile_append]
  generalize rows.dropWhile List.isEmpty = text
  cases text with
  | nil => rfl
  | cons line text =>
      have summary : ((line :: text) ++ [[]]).takeWhile isSummaryLine = (line :: text).takeWhile isSummaryLine := by
        rw [List.takeWhile_append]
        split
        · rename_i all
          have part : (line :: text).takeWhile isSummaryLine <+: line :: text := List.takeWhile_prefix isSummaryLine
          rw [part.eq_of_length all, List.takeWhile_cons, ended]
          exact List.append_nil _
        · rfl
      have rest : groupTags (((line :: text) ++ [[]]).dropWhile isSummaryLine) =
          groupTags ((line :: text).dropWhile isSummaryLine) := by
        rw [List.dropWhile_append]
        split
        · rename_i none
          rw [List.isEmpty_iff.mp none]
          rfl
        · rw [groupTags_append _ [[]] rfl]
          exact Prod.ext rfl (List.append_nil _)
      simp only [List.isEmpty_cons, Bool.false_eq_true, if_false, summary, rest]

private theorem ofLines_of_sameRows (lines others : List Text) (same : SameRows lines others) :
    ofLines (others.map stripGutter) = ofLines (lines.map stripGutter) := by
  rcases same with equal | longer
  · rw [equal]
  · rw [longer, ofLines_emptyLast]

theorem SameRows.cons {lines others : List Text} (same : SameRows lines others) (line other : Text)
    (first : stripGutter other = stripGutter line) : SameRows (line :: lines) (other :: others) := by
  unfold SameRows at same ⊢
  rw [List.map_cons, List.map_cons, first]
  rcases same with equal | longer
  · exact .inl (by rw [equal])
  · exact .inr (by rw [longer]; rfl)

private theorem lines_indentation (indentation : Text) (pads : Text.IsIndentation indentation) :
    SameRows [] (Text.lines indentation) := by
  by_cases empty : indentation = []
  · rw [empty]
    exact .inl rfl
  · have unbroken : '\n' ∉ indentation := by
      intro member
      rcases pads '\n' member with impossible | impossible <;> cases impossible
    have bare := stripGutter_indented indentation [] pads.blank
    rw [List.append_nil] at bare
    rw [Text.lines_single indentation unbroken empty]
    exact .inr (congrArg (fun row => [row]) bare)

private theorem lines_of_relaid {text other : Text} (relaid : Relaid text other) (noReturn : '\r' ∉ text) :
    (text = [] ∧ other = []) ∨
      ∃ line rest others, Text.lines text = line :: rest ∧ Text.lines other = line :: others ∧
        SameRows rest others := by
  induction relaid with
  | done => exact .inl ⟨rfl, rfl⟩
  | same c rest other unbroken later ih =>
      have notReturn : c ≠ '\r' := by
        rintro rfl
        exact noReturn List.mem_cons_self
      rw [Text.lines_cons c rest unbroken notReturn, Text.lines_cons c other unbroken notReturn]
      right
      rcases ih fun member => noReturn (List.mem_cons_of_mem c member) with ⟨own, new⟩ | ⟨line, rows, others, own, new, same⟩
      · subst own new
        exact ⟨[c], [], [], rfl, rfl, .inl rfl⟩
      · rw [own, new]
        exact ⟨c :: line, rows, others, rfl, rfl, same⟩
  | broken ending indentation rest other ends pads later ih =>
      have feed : Text.lines (ending ++ (indentation ++ other)) = [] :: Text.lines (indentation ++ other) := by
        rcases ends with rfl | rfl <;> rw [List.cons_append] <;> rfl
      refine .inr ⟨[], Text.lines rest, _, rfl, feed, ?_⟩
      rcases ih fun member => noReturn (List.mem_cons_of_mem '\n' member) with ⟨own, new⟩ | ⟨line, rows, others, own, new, same⟩
      · subst own new
        rw [List.append_nil]
        exact lines_indentation indentation pads
      · rw [own, Text.lines_indented indentation other line others pads new]
        exact same.cons line _ (stripGutter_indented indentation line pads.blank)

private theorem ofLines_of_relaid {text other : Text} (relaid : Relaid text other) (noReturn : '\r' ∉ text) :
    ofLines ((Text.lines other).map stripGutter) = ofLines ((Text.lines text).map stripGutter) := by
  rcases lines_of_relaid relaid noReturn with ⟨rfl, rfl⟩ | ⟨line, rest, others, own, new, same⟩
  · rfl
  · rw [own, new]
    exact ofLines_of_sameRows _ _ (same.cons line line rfl)

theorem isDocComment_iff (text : Text) :
    isDocComment text = true ↔ ∃ inner, text = '/' :: '*' :: '*' :: (inner ++ ['*', '/']) := by
  constructor
  · intro isComment
    unfold isDocComment Text.endsWith Text.startsWith at isComment
    simp only [Bool.and_eq_true, decide_eq_true_eq, Option.isSome_iff_exists, Text.after_eq_some_iff] at isComment
    obtain ⟨⟨long, rest, started⟩, lead, ended⟩ := isComment
    have whole : text = lead.reverse ++ ['*', '/'] := by
      rw [← List.reverse_reverse text, ended]
      simp
    -- The marks do not overlap, so the opening one is part of what stands before the closing one.
    have fits : ['/', '*', '*'].length ≤ lead.reverse.length := by
      rw [whole, List.length_append] at long
      simp only [List.length_cons, List.length_nil] at long ⊢
      omega
    obtain ⟨inner, known⟩ := List.prefix_of_prefix_length_le ⟨rest, started.symm⟩ ⟨_, whole.symm⟩ fits
    refine ⟨inner, ?_⟩
    rw [whole, ← known]
    rfl
  · rintro ⟨inner, rfl⟩
    simp [isDocComment, Text.startsWith, Text.endsWith, Text.after?]

/-- A text is read exactly if it is a doc comment, with nothing but blanks around it. -/
theorem parse_eq_ok_iff (text : Text) (block : DocBlock) :
    parse text = .ok block ↔
      ∃ front inner behind, text = front ++ '/' :: '*' :: '*' :: (inner ++ '*' :: '/' :: behind) ∧
        (∀ c ∈ front, isBlank c = true) ∧ (∀ c ∈ behind, isBlank c = true) ∧
        block = ofLines ((Text.lines inner).map stripGutter) := by
  have read (inner : Text) (trimmed : Text.trim text = '/' :: '*' :: '*' :: (inner ++ ['*', '/'])) :
      parse text = .ok (ofLines ((Text.lines inner).map stripGutter)) := by
    rw [← parse_enclosed inner]
    unfold parse
    rw [trimmed, ← List.cons_append, trim_comment ('*' :: inner)]
  constructor
  · intro parsed
    have isComment : isDocComment (Text.trim text) = true := by
      unfold parse at parsed
      dsimp only at parsed
      split at parsed
      · assumption
      · cases parsed
    obtain ⟨inner, trimmed⟩ := (isDocComment_iff _).mp isComment
    obtain ⟨front, behind, whole, before, after⟩ := Text.trim_split text
    rw [read inner trimmed] at parsed
    rw [trimmed] at whole
    refine ⟨front, inner, behind, ?_, before, after, (Except.ok.inj parsed).symm⟩
    simpa using whole
  · rintro ⟨front, inner, behind, rfl, before, after, rfl⟩
    apply read
    have whole : front ++ '/' :: '*' :: '*' :: (inner ++ '*' :: '/' :: behind) =
        front ++ ('/' :: '*' :: '*' :: (inner ++ ['*', '/'])) ++ behind := by simp
    rw [whole]
    apply Text.trim_padded front _ behind before after (Text.trimStart_cons '/' _ rfl)
    exact Text.endsFirm_append ('/' :: '*' :: '*' :: inner) ['*', '/'] nofun (Text.endsFirm_concat ['*'] '/' rfl)

/-- Indenting the lines of a text and changing its line ends neither makes it a block nor keeps it from being one,
and the block is the same. -/
theorem parse_of_relaid (text other : Text) (noReturn : '\r' ∉ text) (relaid : Relaid text other) (block : DocBlock) :
    parse other = .ok block ↔ parse text = .ok block := by
  rw [parse_eq_ok_iff, parse_eq_ok_iff]
  constructor
  · rintro ⟨front, inner, behind, rfl, before, after, rfl⟩
    obtain ⟨ownFront, ownInner, ownBehind, rfl, relaidFront, relaidInner, relaidBehind⟩ := relaid.enclosed_back
    refine ⟨ownFront, ownInner, ownBehind, rfl, relaidFront.blank_iff.mp before, relaidBehind.blank_iff.mp after, ?_⟩
    exact ofLines_of_relaid relaidInner fun member => noReturn (by simp [member])
  · rintro ⟨front, inner, behind, rfl, before, after, rfl⟩
    obtain ⟨newFront, newInner, newBehind, rfl, relaidFront, relaidInner, relaidBehind⟩ := relaid.enclosed
    refine ⟨newFront, newInner, newBehind, rfl, relaidFront.blank_iff.mpr before, relaidBehind.blank_iff.mpr after, ?_⟩
    exact (ofLines_of_relaid relaidInner fun member => noReturn (by simp [member])).symm

def evenLayout : Text :=
  "/**".toList ++ '\n' :: (" * Orders".toList ++ '\n' :: ("*".toList ++ '\n' ::
    ("@property int $id".toList ++ '\n' :: ("*   the key".toList ++ '\n' :: "*/".toList))))

def mixedLayout : Text :=
  "/**\r\n\t * Orders\n  *\r\n    @property int $id\n\t *   the key\n */".toList

def ordersBlock : DocBlock :=
  ⟨"Orders".toList, [⟨"property".toList, ["int $id".toList, "the key".toList]⟩]⟩

private theorem relaid_mixedLayout : Relaid evenLayout mixedLayout :=
  .piece "/**".toList (by decide) <|
    .broken ['\r', '\n'] ['\t'] _ _ (.inr rfl) (by simp [Text.IsIndentation]) <|
    .piece " * Orders".toList (by decide) <|
    .broken ['\n'] [' ', ' '] _ _ (.inl rfl) (by simp [Text.IsIndentation]) <|
    .piece "*".toList (by decide) <|
    .broken ['\r', '\n'] [' ', ' ', ' ', ' '] _ _ (.inr rfl) (by simp [Text.IsIndentation]) <|
    .piece "@property int $id".toList (by decide) <|
    .broken ['\n'] ['\t', ' '] _ _ (.inl rfl) (by simp [Text.IsIndentation]) <|
    .piece "*   the key".toList (by decide) <|
    .broken ['\n'] [' '] _ _ (.inl rfl) (by simp [Text.IsIndentation]) <|
    .piece "*/".toList (by decide) .done

theorem parse_of_relaid_orders :
    '\r' ∉ evenLayout ∧ Relaid evenLayout mixedLayout ∧ parse evenLayout = .ok ordersBlock ∧
      parse mixedLayout = .ok ordersBlock :=
  have even : parse evenLayout = .ok ordersBlock := rfl
  ⟨by decide, relaid_mixedLayout, even,
    (parse_of_relaid evenLayout mixedLayout (by decide) relaid_mixedLayout ordersBlock).mpr even⟩

end MemberDoc.DocBlock
