import MemberDoc.DocBlock.Tag
import MemberDoc.Proofs.TextLines

set_option autoImplicit false

/-! The text of a tag. Reading gives tags in a normal form, and a tag in normal form is read back
from its own text. -/

namespace MemberDoc.Tag

/-- The form of every tag that was read: a name, and body lines with collapsed blanks. -/
structure IsNormal (tag : Tag) : Prop where
  named : tag.name ≠ []
  solid : ∀ c ∈ tag.name, isNamePart c = true
  collapsed : ∀ line ∈ tag.body, Text.IsCollapsed line

/-- No line of the text but the first could be taken for the start of another tag. -/
def IsClosed (tag : Tag) : Prop :=
  ∀ line ∈ tag.body.tail, line.head? ≠ some '@'

instance (tag : Tag) : Decidable tag.IsClosed :=
  inferInstanceAs (Decidable (∀ line ∈ tag.body.tail, line.head? ≠ some '@'))

theorem isNormal_of_parse (source : Text) (tag : Tag) (parsed : parse? source = some tag) :
    tag.IsNormal := by
  unfold parse? at parsed
  split at parsed
  · rename_i rest _
    split at parsed
    · cases parsed
    · rename_i unnamed
      cases parsed
      refine ⟨fun empty => unnamed empty, ?_, ?_⟩
      · intro c member
        exact List.all_eq_true.mp List.all_takeWhile c member
      · intro line member
        simp only [List.mem_filter, List.mem_map, decide_eq_true_eq] at member
        obtain ⟨⟨raw, _, rfl⟩, nonempty⟩ := member
        exact Text.isCollapsed_collapse raw nonempty
  · cases parsed

def separator : Text → Text
  | '(' :: _ => []
  | _ => [' ']

def firstRendered (tag : Tag) : Text :=
  '@' :: tag.name ++
    match tag.body with
    | [] => []
    | first :: _ => separator first ++ first

def renderedLines (tag : Tag) : List Text :=
  tag.firstRendered :: tag.body.tail

def renderedBody (tag : Tag) : Text :=
  match tag.body with
  | [] => []
  | first :: rest => Text.joinWith ['\n'] ((separator first ++ first) :: rest)

theorem render_eq (tag : Tag) : tag.render = '@' :: tag.name ++ tag.renderedBody := by
  unfold render renderedBody
  congr 1
  cases tag.body with
  | nil => rfl
  | cons first rest =>
      dsimp only
      rw [Text.joinWith_lead]
      split
      · rename_i empty
        cases empty
      · rename_i same
        cases same
        rfl
      · rename_i notOpen
        unfold separator
        split
        · exact absurd rfl (notOpen _ rest)
        · rfl

theorem render_eq_joinWith (tag : Tag) : tag.render = Text.joinWith ['\n'] tag.renderedLines := by
  rw [render_eq]
  unfold renderedLines firstRendered renderedBody
  cases tag.body with
  | nil => simp only [List.tail_nil, Text.joinWith_singleton]
  | cons first rest =>
      dsimp only
      rw [List.tail_cons, Text.joinWith_lead, Text.joinWith_lead, Text.joinWith_lead]

theorem isBlank_of_isNamePart (c : Char) (part : isNamePart c = true) : Text.isBlank c = false := by
  unfold isNamePart at part
  simp only [Bool.and_eq_true, Bool.not_eq_true'] at part
  exact part.1

theorem separator_cases (line : Text) : separator line = [] ∨ separator line = [' '] := by
  unfold separator
  split
  · exact Or.inl rfl
  · exact Or.inr rfl

private theorem IsNormal.solid_marked {tag : Tag} (normal : tag.IsNormal) :
    ∀ c ∈ '@' :: tag.name, Text.isBlank c = false := by
  intro c member
  rcases List.mem_cons.mp member with rfl | inName
  · rfl
  · exact isBlank_of_isNamePart c (normal.solid c inName)

private theorem IsNormal.isCollapsed_first {tag : Tag} (normal : tag.IsNormal) :
    Text.IsCollapsed tag.firstRendered := by
  have isWord : Text.IsWord ('@' :: tag.name) := ⟨List.cons_ne_nil _ _, normal.solid_marked⟩
  unfold firstRendered
  cases body : tag.body with
  | nil =>
      rw [List.append_nil]
      exact Text.isCollapsed_of_isWord isWord
  | cons first rest =>
      have collapsed := normal.collapsed first (by rw [body]; exact List.mem_cons_self)
      dsimp only
      rcases separator_cases first with glued | spaced
      · rw [glued]
        exact collapsed.solid_append _ normal.solid_marked
      · rw [spaced]
        exact collapsed.after_word _ isWord

theorem IsNormal.isCollapsed {tag : Tag} (normal : tag.IsNormal) (line : Text) (member : line ∈ tag.renderedLines) :
    Text.IsCollapsed line := by
  rcases List.mem_cons.mp member with rfl | inTail
  · exact normal.isCollapsed_first
  · exact normal.collapsed line (List.mem_of_mem_tail inTail)

/-- Every line of the text of a tag is a full line: not empty, without blanks at its end. -/
theorem IsNormal.isLine {tag : Tag} (normal : tag.IsNormal) (line : Text) (member : line ∈ tag.renderedLines) :
    line ≠ [] ∧ '\n' ∉ line ∧ Text.EndsFirm line := by
  have collapsed := normal.isCollapsed line member
  exact ⟨collapsed.nonempty, collapsed.not_mem_of_blank '\n' rfl (by decide), collapsed.endsFirm⟩

theorem noReturn_of_endsFirm (line : Text) (firm : Text.EndsFirm line) : line.getLast? ≠ some '\r' := by
  intro last
  have blank : Text.isBlank '\r' = true := rfl
  have notBlank := firm '\r' last
  rw [blank] at notBlank
  cases notBlank

theorem IsNormal.lines_render {tag : Tag} (normal : tag.IsNormal) :
    Text.lines tag.render = tag.renderedLines := by
  rw [render_eq_joinWith]
  apply Text.lines_joinWith
  intro line member
  obtain ⟨nonempty, unbroken, firm⟩ := normal.isLine line member
  exact ⟨nonempty, unbroken, noReturn_of_endsFirm line firm⟩

private theorem IsNormal.endsFirm_render {tag : Tag} (normal : tag.IsNormal) : Text.EndsFirm tag.render := by
  rw [render_eq_joinWith]
  apply Text.endsFirm_joinWith
  intro line member
  obtain ⟨nonempty, _, firm⟩ := normal.isLine line member
  exact ⟨nonempty, firm⟩

theorem IsNormal.trim_render {tag : Tag} (normal : tag.IsNormal) : Text.trim tag.render = tag.render :=
  Text.trim_of_firm '@' _ rfl normal.endsFirm_render

private theorem IsNormal.splitOn_render {tag : Tag} (normal : tag.IsNormal) :
    Text.splitOn '\n' tag.render = tag.renderedLines := by
  rw [render_eq_joinWith]
  exact Text.splitOn_joinWith '\n' _ (List.cons_ne_nil _ _) fun line member => (normal.isLine line member).2.1

private theorem takeWhile_renderedBody (tag : Tag) : tag.renderedBody.takeWhile isNamePart = [] := by
  unfold renderedBody
  cases tag.body with
  | nil => rfl
  | cons first rest =>
      dsimp only
      rw [Text.joinWith_lead]
      unfold separator
      split
      · cases rest with
        | nil => rfl
        | cons next rest => rfl
      · rfl

private theorem collapse_separator (line : Text) : Text.collapse (separator line ++ line) = Text.collapse line := by
  unfold separator
  split
  · rfl
  · exact Text.collapse_blank line

private theorem IsNormal.lines_renderedBody {tag : Tag} (normal : tag.IsNormal) :
    (Text.lines tag.renderedBody).map Text.collapse = tag.body := by
  have blankFeed : Text.isBlank '\n' = true := rfl
  unfold renderedBody
  cases body : tag.body with
  | nil => rfl
  | cons first rest =>
      have collapsed : ∀ line ∈ first :: rest, Text.IsCollapsed line := by
        rw [← body]
        exact normal.collapsed
      have firstCollapsed := collapsed first List.mem_cons_self
      have found : Text.lines (Text.joinWith ['\n'] ((separator first ++ first) :: rest)) =
          (separator first ++ first) :: rest := by
        apply Text.lines_joinWith
        intro line member
        rcases List.mem_cons.mp member with rfl | inRest
        · have firm := Text.endsFirm_append (separator first) first firstCollapsed.nonempty
            firstCollapsed.endsFirm
          refine ⟨?_, ?_, noReturn_of_endsFirm _ firm⟩
          · simp [firstCollapsed.nonempty]
          · intro inLine
            rcases List.mem_append.mp inLine with inSeparator | inFirst
            · rcases separator_cases first with glued | spaced
              · rw [glued] at inSeparator
                cases inSeparator
              · rw [spaced] at inSeparator
                cases List.mem_singleton.mp inSeparator
            · exact firstCollapsed.not_mem_of_blank '\n' blankFeed (by decide) inFirst
        · have later := collapsed line (List.mem_cons_of_mem first inRest)
          exact ⟨later.nonempty, later.not_mem_of_blank '\n' blankFeed (by decide),
            noReturn_of_endsFirm line later.endsFirm⟩
      dsimp only
      rw [found, List.map_cons, collapse_separator, firstCollapsed.stable]
      congr 1
      conv => rhs; rw [← List.map_id rest]
      exact List.map_congr_left fun line member =>
        (collapsed line (List.mem_cons_of_mem first member)).stable

private theorem filter_body {tag : Tag} (normal : tag.IsNormal) : tag.body.filter (· ≠ []) = tag.body := by
  apply List.filter_eq_self.mpr
  intro line member
  simpa using (normal.collapsed line member).nonempty

theorem parse_of_trim (source rest : Text) (trimmed : Text.trim source = '@' :: rest)
    (named : rest.takeWhile isNamePart ≠ []) :
    parse? source = some ⟨rest.takeWhile isNamePart,
      ((Text.lines (rest.dropWhile isNamePart)).map Text.collapse).filter (· ≠ [])⟩ := by
  unfold parse?
  rw [trimmed]
  split
  · rename_i same
    cases same
    split
    · rename_i empty
      exact absurd empty named
    · rfl
  · rename_i unmarked
    exact absurd rfl (unmarked rest)

theorem parse_isSome (c : Char) (rest : Text) (part : isNamePart c = true) :
    ∃ tag, parse? ('@' :: c :: rest) = some tag := by
  have trimmed : Text.trim ('@' :: c :: rest) = '@' :: c :: Text.trimEnd rest := by
    rw [Text.trim, Text.trimStart_cons '@' _ rfl, Text.trimEnd_cons '@' _ rfl,
      Text.trimEnd_cons c _ (isBlank_of_isNamePart c part)]
  refine ⟨_, parse_of_trim _ _ trimmed ?_⟩
  rw [List.takeWhile_cons, part, if_pos rfl]
  exact List.cons_ne_nil _ _

theorem IsNormal.parse_render {tag : Tag} (normal : tag.IsNormal) : parse? tag.render = some tag := by
  have trimmed : Text.trim tag.render = '@' :: (tag.name ++ tag.renderedBody) :=
    normal.trim_render.trans tag.render_eq
  have nameTaken : (tag.name ++ tag.renderedBody).takeWhile isNamePart = tag.name := by
    rw [List.takeWhile_append_of_pos normal.solid, takeWhile_renderedBody, List.append_nil]
  have bodyLeft : (tag.name ++ tag.renderedBody).dropWhile isNamePart = tag.renderedBody := by
    rw [List.dropWhile_append_of_pos normal.solid]
    have whole := List.takeWhile_append_dropWhile (p := isNamePart) (l := tag.renderedBody)
    rwa [takeWhile_renderedBody, List.nil_append] at whole
  rw [parse_of_trim tag.render _ trimmed (by rw [nameTaken]; exact normal.named), nameTaken, bodyLeft,
    normal.lines_renderedBody, filter_body normal]

theorem render_injective (left right : Tag) (leftNormal : left.IsNormal) (rightNormal : right.IsNormal)
    (same : left.render = right.render) : left = right := by
  have readBack := leftNormal.parse_render
  rw [same, rightNormal.parse_render] at readBack
  exact (Option.some.inj readBack).symm

/-- The text of a tag that was read is a normal form: the tag is read from it again, no other tag has it, and its lines
are words separated by one space each. -/
theorem normalForm_of_parse (source : Text) (tag : Tag) (parsed : parse? source = some tag) :
    parse? tag.render = some tag ∧
      (∀ otherSource other, parse? otherSource = some other → other.render = tag.render → other = tag) ∧
      tag.render.head? = some '@' ∧ Text.trim tag.render = tag.render ∧
      ∀ line ∈ Text.splitOn '\n' tag.render,
        line ≠ [] ∧ (∀ c ∈ line, Text.isBlank c = true → c = ' ') ∧ ¬ [' ', ' '] <:+: line := by
  have normal := isNormal_of_parse source tag parsed
  refine ⟨normal.parse_render, ?_, rfl, normal.trim_render, ?_⟩
  · intro otherSource other otherParsed same
    exact render_injective other tag (isNormal_of_parse otherSource other otherParsed) normal same
  · intro line member
    rw [normal.splitOn_render] at member
    have collapsed := normal.isCollapsed line member
    refine ⟨collapsed.nonempty, fun c inLine blank => ?_, collapsed.single_spaces⟩
    rcases collapsed.mem c inLine with space | firm
    · exact space
    · rw [firm] at blank
      cases blank

/-- A source with blanks of all kinds, empty lines and a body that starts with a parenthesis on a line of its own. -/
def looseSource : Text :=
  " \t@method \r\n\n (callable)\u00a0 \u2028run( )  \n\n  @see\u3000 it\t\n".toList

def tightTag : Tag :=
  ⟨"method".toList, ["(callable) run( )".toList, "@see it".toList]⟩

theorem normalForm_of_parse_loose :
    parse? looseSource = some tightTag ∧ tightTag.render = "@method(callable) run( )\n@see it".toList ∧
      parse? tightTag.render = some tightTag ∧ Text.trim tightTag.render = tightTag.render ∧
      ∀ line ∈ Text.splitOn '\n' tightTag.render, line ≠ [] ∧ ¬ [' ', ' '] <:+: line := by
  have parsed : parse? looseSource = some tightTag := by decide +kernel
  obtain ⟨again, _, _, trimmed, lines⟩ := normalForm_of_parse looseSource tightTag parsed
  exact ⟨parsed, by decide +kernel, again, trimmed, fun line member => ⟨(lines line member).1, (lines line member).2.2⟩⟩

end MemberDoc.Tag
