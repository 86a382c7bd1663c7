import MemberDoc.Proofs.AttributeText
import MemberDoc.Proofs.ClassSite

set_option autoImplicit false

/-! What may stand between a doc comment and the class it belongs to: blanks, attributes and class modifiers, in any
number and order. A gap is looked at piece by piece, and each round uses up some of it. -/

namespace MemberDoc.Source

/-- A class modifier in any case, with no letter before it or behind it. -/
structure IsModifier (before word behind : Text) : Prop where
  letters : ∀ c ∈ word, c.isAlpha = true
  known : Text.lower word ∈ modifierWords
  starts : ∀ c, before.getLast? = some c → c.isAlpha = false
  ends : ∀ c, behind.head? = some c → c.isAlpha = false

def IsGapPiece (before piece behind : Text) : Prop :=
  IsSpacing piece ∨ IsModifier before piece behind

def IsGap (text : Text) : Prop :=
  IsSequence IsGapPiece [] text

/-- The last comment that ends before a keyword belongs to it if there is only a gap between them. -/
structure IsAttached (comments : List DocComment) (lead : Text) (comment : DocComment) : Prop where
  last : ∃ earlier later, comments = earlier ++ comment :: later ∧
    ∀ other ∈ later, Text.byteLength lead < other.stop
  within : comment.stop ≤ Text.byteLength lead
  gap : IsGap (Text.dropBytes comment.stop lead)

/-- What follows the attribute or the modifier at the start of a text and the blanks behind it. -/
def skipPiece? (text : Text) : Option Text :=
  match Text.after? ['#', '['] text with
  | some body => (afterBrackets? 1 body).map Text.trimStart
  | none =>
      if modifierWords.contains (Text.lower (text.takeWhile Char.isAlpha)) then
        some (Text.trimStart (text.dropWhile Char.isAlpha))
      else none

/-- So many rounds over a text come to an answer: everything is used up, or something else stands there. -/
inductive Answers : Text → Nat → Bool → Prop where
  | used : Answers [] 0 true
  | stuck (c : Char) (rest : Text) (other : skipPiece? (c :: rest) = none) : Answers (c :: rest) 0 false
  | next (text rest : Text) (rounds : Nat) (answer : Bool) (here : skipPiece? text = some rest)
      (later : Answers rest rounds answer) : Answers text (rounds + 1) answer

private theorem skipPiece_attribute (piece behind : Text) (isAttribute : IsAttribute piece) :
    skipPiece? (piece ++ behind) = some (Text.trimStart behind) := by
  obtain ⟨body, rfl, closes⟩ := isAttribute
  have here := (afterBrackets_eq_some_iff 1 (body ++ behind) behind).mpr ⟨body, rfl, closes⟩
  change (afterBrackets? 1 (body ++ behind)).map Text.trimStart = _
  rw [here, Option.map_some]

private theorem after_attribute_of_isAlpha (c : Char) (rest : Text) (letter : c.isAlpha = true) :
    Text.after? ['#', '['] (c :: rest) = none := by
  rw [Text.after?, if_neg]
  rintro rfl
  cases letter

theorem cons_of_modifier (word : Text) (letters : ∀ c ∈ word, c.isAlpha = true)
    (known : Text.lower word ∈ modifierWords) : ∃ c rest, word = c :: rest ∧ c.isAlpha = true := by
  cases word with
  | nil => exact absurd known (by decide)
  | cons c rest => exact ⟨c, rest, rfl, letters c List.mem_cons_self⟩

private theorem skipPiece_modifier (before word behind : Text) (modifier : IsModifier before word behind) :
    skipPiece? (word ++ behind) = some (Text.trimStart behind) := by
  obtain ⟨taken, dropped⟩ := Text.takeWhile_stops Char.isAlpha word behind modifier.letters modifier.ends
  obtain ⟨c, rest, rfl, letter⟩ := cons_of_modifier word modifier.letters modifier.known
  rw [skipPiece?, taken, dropped, List.cons_append, after_attribute_of_isAlpha c _ letter]
  exact if_pos (List.contains_iff_mem.mpr modifier.known)

theorem skipPiece_cases (text rest : Text) (found : skipPiece? text = some rest) :
    ∃ piece behind, text = piece ++ behind ∧ rest = Text.trimStart behind ∧
      (IsAttribute piece ∨ IsModifier [] piece behind) := by
  unfold skipPiece? at found
  split at found
  · rename_i body opens
    obtain ⟨behind, closed, rfl⟩ := Option.map_eq_some_iff.mp found
    obtain ⟨piece, whole, isAttribute⟩ := (afterBrackets_one_iff body behind).mp closed
    exact ⟨piece, behind, ((Text.after_eq_some_iff _ _ _).mp opens).trans whole, rfl, .inl isAttribute⟩
  · split at found
    · rename_i known
      cases found
      refine ⟨text.takeWhile Char.isAlpha, text.dropWhile Char.isAlpha, List.takeWhile_append_dropWhile.symm, rfl, ?_⟩
      refine .inr ⟨List.all_eq_true.mp List.all_takeWhile, List.contains_iff_mem.mp known, nofun, fun c first => ?_⟩
      have stopped := List.head?_dropWhile_not Char.isAlpha text
      rw [first] at stopped
      simpa using stopped
    · cases found

private theorem skipPiece_shorter (text rest : Text) (found : skipPiece? text = some rest) :
    rest.length < text.length := by
  obtain ⟨piece, behind, rfl, rfl, kind⟩ := skipPiece_cases text rest found
  have filled : 0 < piece.length := by
    rcases kind with ⟨body, rfl, _⟩ | modifier
    · exact Nat.succ_pos _
    · obtain ⟨c, inner, rfl, _⟩ := cons_of_modifier piece modifier.letters modifier.known
      exact Nat.succ_pos _
  have trimmed : (Text.trimStart behind).length ≤ behind.length := (List.dropWhile_suffix _).length_le
  rw [List.length_append]
  omega

theorem isTransparent_trimStart (text : Text) :
    isTransparent (.letters 0) (Text.trimStart text) = isTransparent (.letters 0) text := by
  induction text with
  | nil => rfl
  | cons c text ih =>
      by_cases blank : Text.isBlank c = true
      · rw [Text.trimStart, List.dropWhile_cons_of_pos blank, isTransparent, if_pos blank]
        exact ih
      · rw [Text.trimStart, List.dropWhile_cons_of_neg blank]

private theorem isTransparent_letters (count : Nat) (text : Text) :
    isTransparent (.letters count) text = isTransparent (.letters 0) (text.drop count) := by
  induction count generalizing text with
  | zero => rfl
  | succ count ih =>
      cases text with
      | nil => rfl
      | cons c text => exact ih text

/-- A text that does not start with a blank is transparent if what one round leaves of it is transparent. -/
theorem isTransparent_step (c : Char) (rest : Text) (solid : Text.isBlank c = false) :
    isTransparent (.letters 0) (c :: rest) =
      ((skipPiece? (c :: rest)).map (isTransparent (.letters 0))).getD false := by
  have trimmed : isTransparent (.letters 0) ∘ Text.trimStart = isTransparent (.letters 0) :=
    funext isTransparent_trimStart
  unfold skipPiece?
  split
  · rename_i body opens
    rw [(Text.after_eq_some_iff _ _ _).mp opens, Option.map_map, trimmed, ← isTransparent_attribute]
    rfl
  · rename_i other
    have noAttribute : ¬ (c = '#' && rest.head? = some '[') = true := by
      intro opens
      obtain ⟨body, rfl, rfl⟩ := exists_opening opens
      cases other
    rw [isTransparent, if_neg (by simp [solid]), if_neg noAttribute]
    dsimp only
    split
    · rename_i known
      obtain ⟨d, word, taken, letter⟩ := cons_of_modifier ((c :: rest).takeWhile Char.isAlpha)
        (List.all_eq_true.mp List.all_takeWhile) (List.contains_iff_mem.mp known)
      -- The first letter is passed here, so that one letter less is left to count.
      have whole := List.takeWhile_append_dropWhile (p := Char.isAlpha) (l := c :: rest)
      rw [taken, List.cons_append] at whole
      obtain ⟨rfl, behind⟩ := List.cons.inj whole
      rw [taken, List.length_cons, Nat.add_sub_cancel, isTransparent_letters, ← behind, List.drop_left, behind]
      exact (isTransparent_trimStart _).symm
    · rfl

/-- Looking at a text piece by piece comes to an end, and to the answer of the count over its characters. -/
theorem answers_trimStart (size : Nat) (text : Text) (small : (Text.trimStart text).length ≤ size) :
    ∃ rounds, rounds ≤ size ∧ Answers (Text.trimStart text) rounds (isTransparent (.letters 0) text) := by
  induction size generalizing text with
  | zero =>
      have empty := List.eq_nil_of_length_eq_zero (Nat.le_zero.mp small)
      rw [← isTransparent_trimStart, empty]
      exact ⟨0, Nat.le_refl 0, .used⟩
  | succ size ih =>
      rw [← isTransparent_trimStart]
      cases trimmed : Text.trimStart text with
      | nil => exact ⟨0, Nat.zero_le _, .used⟩
      | cons c rest =>
          rw [isTransparent_step c rest (Text.isBlank_of_trimStart text rest c trimmed)]
          cases found : skipPiece? (c :: rest) with
          | none => exact ⟨0, Nat.zero_le _, .stuck c rest found⟩
          | some left =>
              have shorter := skipPiece_shorter _ _ found
              obtain ⟨piece, behind, _, rfl, _⟩ := skipPiece_cases _ _ found
              rw [trimmed] at small
              obtain ⟨rounds, few, answers⟩ := ih behind (by omega)
              rw [Option.map_some, Option.getD_some, isTransparent_trimStart]
              exact ⟨rounds + 1, Nat.succ_le_succ few, .next _ _ rounds _ found answers⟩

theorem isSequence_pad (before pad behind : Text) (blank : ∀ c ∈ pad, Text.isBlank c = true)
    (later : IsSequence IsGapPiece (before ++ pad) behind) : IsSequence IsGapPiece before (pad ++ behind) := by
  induction pad generalizing before with
  | nil => rwa [List.append_nil] at later
  | cons c pad ih =>
      obtain ⟨first, others⟩ := List.forall_mem_cons.mp blank
      refine .next before [c] (pad ++ behind) (.inl (.inl ⟨c, rfl, first⟩)) (ih _ others ?_)
      rwa [List.append_assoc]

/-- No run of letters goes on from one text into another one. -/
def LettersApart (before behind : Text) : Prop :=
  ∀ c d, before.getLast? = some c → behind.head? = some d → c.isAlpha = true → d.isAlpha = false

theorem lettersApart_pad (before pad behind : Text) (blank : ∀ c ∈ pad, Text.isBlank c = true)
    (apart : LettersApart before (pad ++ behind)) : LettersApart (before ++ pad) behind := by
  intro c d last first letter
  cases pad with
  | nil =>
      rw [List.append_nil] at last
      exact apart c d last first letter
  | cons e pad =>
      rw [Text.getLast_suffix before (e :: pad) (List.cons_ne_nil e pad)] at last
      rw [Text.isAlpha_eq_false_of_isBlank c (blank c (List.mem_of_getLast? last))] at letter
      cases letter

/-- What a round passes over is a piece of a gap, and no run of letters goes on behind it. -/
theorem isGapPiece_of_kind (before piece behind : Text) (apart : LettersApart before (piece ++ behind))
    (kind : IsAttribute piece ∨ IsModifier [] piece behind) :
    IsGapPiece before piece behind ∧ LettersApart (before ++ piece) behind := by
  rcases kind with isAttribute | modifier
  · refine ⟨.inl (.inr isAttribute), fun c d last _ letter => ?_⟩
    have closing := isAttribute.getLast
    rw [Text.getLast_suffix before piece (by rintro rfl; cases closing), closing] at last
    cases last
    cases letter
  · obtain ⟨c, inner, rfl, letter⟩ := cons_of_modifier piece modifier.letters modifier.known
    have starts (d : Char) (last : before.getLast? = some d) : d.isAlpha = false := by
      by_cases other : d.isAlpha = true
      · rw [apart d c last rfl other] at letter
        cases letter
      · simpa using other
    exact ⟨.inr { modifier with starts }, fun _ d _ first _ => modifier.ends d first⟩

private theorem isSequence_of_answers (text : Text) (rounds : Nat) (answer : Bool)
    (answers : Answers text rounds answer) (transparent : answer = true) (before : Text)
    (apart : LettersApart before text) :
    IsSequence IsGapPiece before text := by
  -- What has been read grows with each round. That it does not end inside a run of letters makes the next run maximal.
  induction answers generalizing before with
  | used => exact .nil before
  | stuck c rest other => cases transparent
  | next text rest rounds answer here later ih =>
      obtain ⟨piece, behind, rfl, rfl, kind⟩ := skipPiece_cases text rest here
      obtain ⟨isPiece, apartBehind⟩ := isGapPiece_of_kind before piece behind apart kind
      obtain ⟨pad, split, blank⟩ := Text.trimStart_split behind
      refine .next before piece behind isPiece ?_
      rw [split] at apartBehind ⊢
      exact isSequence_pad _ pad _ blank (ih transparent _ (lettersApart_pad _ pad _ blank apartBehind))

private theorem isTransparent_skip (c : Char) (rest behind : Text) (solid : Text.isBlank c = false)
    (skipped : skipPiece? (c :: rest) = some (Text.trimStart behind)) :
    isTransparent (.letters 0) (c :: rest) = isTransparent (.letters 0) behind := by
  rw [isTransparent_step c rest solid, skipped, Option.map_some, Option.getD_some, isTransparent_trimStart]

private theorem IsModifier.append {before word behind : Text} (modifier : IsModifier before word behind) (more : Text)
    (apart : ∀ c, more.head? = some c → c.isAlpha = false) : IsModifier before word (behind ++ more) := by
  refine { modifier with ends := fun c first => ?_ }
  cases behind with
  | nil => exact apart c first
  | cons d behind => exact modifier.ends c first

/-- Behind a sequence of pieces the count over characters goes on as at the start. -/
theorem isTransparent_append (before text more : Text) (sequence : IsSequence IsGapPiece before text)
    (apart : ∀ c, more.head? = some c → c.isAlpha = false) :
    isTransparent (.letters 0) (text ++ more) = isTransparent (.letters 0) more := by
  induction sequence with
  | nil before => rfl
  | next before piece behind here later ih =>
      rw [List.append_assoc]
      rcases here with (⟨c, rfl, blank⟩ | isAttribute) | modifier
      · rw [List.singleton_append, isTransparent, if_pos blank]
        exact ih
      · have skipped := skipPiece_attribute piece (behind ++ more) isAttribute
        obtain ⟨body, rfl, _⟩ := isAttribute
        exact (isTransparent_skip '#' _ _ (by decide) skipped).trans ih
      · have skipped := skipPiece_modifier before piece _ (modifier.append more apart)
        obtain ⟨c, inner, rfl, letter⟩ := cons_of_modifier piece modifier.letters modifier.known
        have solid : Text.isBlank c = false := by
          by_cases blank : Text.isBlank c = true
          · rw [Text.isAlpha_eq_false_of_isBlank c blank] at letter
            cases letter
          · simpa using blank
        exact (isTransparent_skip c _ _ solid skipped).trans ih

theorem isTransparent_iff (gap : Text) : isTransparent (.letters 0) gap = true ↔ IsGap gap := by
  constructor
  · intro transparent
    obtain ⟨rounds, _, answers⟩ := answers_trimStart gap.length gap (List.dropWhile_suffix _).length_le
    obtain ⟨pad, split, blank⟩ := Text.trimStart_split gap
    have apart : LettersApart pad (Text.trimStart gap) :=
      lettersApart_pad [] pad _ blank fun c d last => by cases last
    have trimmed := isSequence_of_answers _ rounds _ answers transparent pad apart
    rw [IsGap, split]
    exact isSequence_pad [] pad _ blank trimmed
  · intro sequence
    have whole := isTransparent_append [] gap [] sequence fun c first => by cases first
    rw [List.append_nil] at whole
    exact whole

private theorem isTransparent_unclosed (front body : Text) (gap : IsGap front)
    (unclosed : ∀ piece, piece <+: '#' :: '[' :: body → ¬ IsAttribute piece) :
    isTransparent (.letters 0) (front ++ '#' :: '[' :: body) = false := by
  have skipped : skipPiece? ('#' :: '[' :: body) = none := by
    change (afterBrackets? 1 body).map Text.trimStart = none
    rw [(afterBrackets_one_eq_none_iff body).mpr unclosed, Option.map_none]
  have other (c : Char) (first : ('#' :: '[' :: body).head? = some c) : c.isAlpha = false := by
    cases first
    decide
  rw [isTransparent_append [] front _ gap other, isTransparent_step '#' _ (by decide), skipped]
  rfl

theorem attachedComment_eq_some_iff (comments : List DocComment) (lead : Text) (comment : DocComment) :
    attachedComment? comments lead = some comment ↔ IsAttached comments lead comment := by
  constructor
  · intro attached
    unfold attachedComment? at attached
    obtain ⟨found, search, kept⟩ := Option.bind_eq_some_iff.mp attached
    split at kept
    · rename_i transparent
      cases kept
      obtain ⟨within, later, earlier, whole, behind⟩ := List.find?_eq_some_iff_append.mp search
      refine ⟨⟨earlier.reverse, later.reverse, ?_, fun other member => ?_⟩, by simpa using within,
        (isTransparent_iff _).mp transparent⟩
      · rw [← List.reverse_reverse comments, whole]
        simp
      · have far := behind other (List.mem_reverse.mp member)
        simpa using far
    · cases kept
  · rintro ⟨⟨earlier, later, rfl, behind⟩, within, gap⟩
    have regroup : earlier ++ comment :: later = earlier ++ [comment] ++ later := by simp
    rw [regroup, attachedComment_append _ later lead behind, attachedComment_concat earlier comment lead within,
      if_pos ((isTransparent_iff _).mpr gap)]

/-- A gap of any length is looked at in finitely many rounds. It is transparent if and only if it is a sequence of
blanks, attributes and class modifiers, which it is not if the bracket of an attribute is never closed. A comment
belongs to a class through such a gap and through no other text. -/
theorem attached_through_gap (comments : List DocComment) (lead : Text) :
    (∀ gap,
      (∃ rounds, rounds ≤ gap.length ∧
        Answers (Text.trimStart gap) rounds (isTransparent (.letters 0) gap)) ∧
      (isTransparent (.letters 0) gap = true ↔ IsGap gap)) ∧
    (∀ front body, IsGap front → (∀ piece, piece <+: '#' :: '[' :: body → ¬ IsAttribute piece) →
      isTransparent (.letters 0) (front ++ '#' :: '[' :: body) = false) ∧
    ∀ comment, attachedComment? comments lead = some comment ↔ IsAttached comments lead comment := by
  refine ⟨fun gap => ⟨?_, isTransparent_iff gap⟩, isTransparent_unclosed, attachedComment_eq_some_iff comments lead⟩
  exact answers_trimStart gap.length gap (List.dropWhile_suffix _).length_le

/-- The mask of a comment, of an attribute with nested brackets and of two modifiers. -/
def routeLead : Text :=
  "         #[Route([1, [2]])]\n  FINAL #[A]readOnly ".toList

theorem attached_through_gap_route :
    IsAttached [⟨0, "/** A */".toList⟩] routeLead ⟨0, "/** A */".toList⟩ ∧
      IsGap "final ".toList ∧ (∀ piece, piece <+: "#[A([1])".toList → ¬ IsAttribute piece) ∧
      isTransparent (.letters 0) "final #[A([1])".toList = false := by
  obtain ⟨answered, blocked, attached⟩ := attached_through_gap [⟨0, "/** A */".toList⟩] routeLead
  have gap : IsGap "final ".toList := (answered _).2.mp (by decide +kernel)
  have unclosed := (afterBrackets_one_eq_none_iff "A([1])".toList).mp (by decide +kernel)
  exact ⟨(attached _).mp (by decide +kernel), gap, unclosed, blocked _ _ gap unclosed⟩

end MemberDoc.Source
