import MemberDoc.Proofs.ClassSite

set_option autoImplicit false

/-! What comments and strings hold cannot be seen. Of their contents a mask keeps the number of bytes and the places
of line feeds, and everything that an outline says about code is read from the mask. -/

namespace MemberDoc.Source

def BreaksAt (text : Text) (place : Nat) : Prop :=
  ∃ before behind, text = before ++ '\n' :: behind ∧ Text.byteLength before = place

/-- Texts of equally many bytes, with line feeds at the same ones. -/
structure SameLayout (left right : Text) : Prop where
  bytes : Text.byteLength left = Text.byteLength right
  breaks : ∀ place, BreaksAt left place ↔ BreaksAt right place

theorem breaksAt_cons (c : Char) (text : Text) (place : Nat) :
    BreaksAt (c :: text) place ↔
      (c = '\n' ∧ place = 0) ∨ ∃ later, place = c.utf8Size + later ∧ BreaksAt text later := by
  constructor
  · rintro ⟨before, behind, whole, size⟩
    cases before with
    | nil =>
        obtain ⟨feed, _⟩ := List.cons.inj whole
        exact .inl ⟨feed, size.symm⟩
    | cons first before =>
        obtain ⟨rfl, rest⟩ := List.cons.inj whole
        exact .inr ⟨Text.byteLength before, size.symm, before, behind, rest, rfl⟩
  · rintro (⟨rfl, rfl⟩ | ⟨later, rfl, before, behind, rfl, rfl⟩)
    · exact ⟨[], text, rfl, rfl⟩
    · exact ⟨c :: before, behind, rfl, rfl⟩

@[simp] theorem length_blankOut (c : Char) : (blankOut c).length = c.utf8Size := by
  unfold blankOut
  split
  · rename_i feed
    rw [feed]
    rfl
  · exact List.length_replicate

@[simp] theorem length_hide (text : Text) : (hide text).length = Text.byteLength text := by
  induction text with
  | nil => rfl
  | cons c text ih => simp [ih, Text.byteLength]

private theorem getElem_blankOut (c : Char) (place : Nat) :
    (blankOut c)[place]? = some '\n' ↔ c = '\n' ∧ place = 0 := by
  unfold blankOut
  split
  · rename_i feed
    cases place with
    | zero => simp [feed]
    | succ place => simp
  · rename_i notFeed
    rw [List.getElem?_replicate]
    split <;> simp [notFeed]

private theorem getElem_hide (text : Text) (place : Nat) : (hide text)[place]? = some '\n' ↔ BreaksAt text place := by
  induction text generalizing place with
  | nil =>
      constructor
      · intro impossible
        cases impossible
      · rintro ⟨before, behind, whole, _⟩
        exact absurd whole.symm (List.append_ne_nil_of_right_ne_nil before (List.cons_ne_nil _ _))
  | cons c text ih =>
      have size := c.utf8Size_pos
      rw [hide_cons, breaksAt_cons, List.getElem?_append, length_blankOut]
      split
      · rename_i within
        rw [getElem_blankOut]
        constructor
        · exact .inl
        · rintro (here | ⟨later, rfl, _⟩)
          · exact here
          · omega
      · rename_i beyond
        rw [ih]
        constructor
        · intro later
          exact .inr ⟨place - c.utf8Size, by omega, later⟩
        · rintro (⟨_, start⟩ | ⟨later, rfl, breaks⟩)
          · omega
          · rw [Nat.add_sub_cancel_left]
            exact breaks

/-- The layout of a text is what is left of it when it is hidden. -/
theorem hide_eq_iff (left right : Text) : hide left = hide right ↔ SameLayout left right := by
  constructor
  · intro same
    refine ⟨?_, fun place => ?_⟩
    · rw [← length_hide, ← length_hide, same]
    · rw [← getElem_hide, ← getElem_hide, same]
  · intro layout
    have sizes : (hide left).length = (hide right).length := by simp [layout.bytes]
    refine List.ext_getElem sizes fun place inLeft inRight => ?_
    -- Both characters are spaces or line feeds, and they are line feeds together.
    have feeds : (hide left)[place] = '\n' ↔ (hide right)[place] = '\n' := by
      have breaks := layout.breaks place
      rw [← getElem_hide, ← getElem_hide, List.getElem?_eq_getElem inLeft, List.getElem?_eq_getElem inRight,
        Option.some.injEq, Option.some.injEq] at breaks
      exact breaks
    rcases isSpace_of_mem_hide left _ (List.getElem_mem inLeft) with space | feed
    · rcases isSpace_of_mem_hide right _ (List.getElem_mem inRight) with otherSpace | otherFeed
      · rw [space, otherSpace]
      · rw [feeds.mpr otherFeed, otherFeed]
    · rw [feed, feeds.mp feed]

instance (left right : Text) : Decidable (SameLayout left right) :=
  decidable_of_iff (hide left = hide right) (hide_eq_iff left right)

/-- The ways in which a source sets a text apart from code. -/
inductive LiteralForm where
  | block
  | slashLine
  | hashLine
  | quoted (quote : Char) (isQuoted : isQuote quote = true)

namespace LiteralForm

def opening : LiteralForm → Text
  | .block => ['/', '*']
  | .slashLine => ['/', '/']
  | .hashLine => ['#']
  | .quoted quote _ => [quote]

def closing : LiteralForm → Text
  | .block => ['*', '/']
  | .slashLine => ['\n']
  | .hashLine => ['\n']
  | .quoted quote _ => [quote]

def text (form : LiteralForm) (content : Text) : Text :=
  form.opening ++ content ++ form.closing

/-- Quotes stay visible, the delimiters of comments do not. -/
def delimiterMask (form : LiteralForm) (delimiter : Text) : Text :=
  match form with
  | .quoted _ _ => delimiter
  | _ => hide delimiter

def textMask (form : LiteralForm) (content : Text) : Text :=
  form.delimiterMask form.opening ++ hide content ++ form.delimiterMask form.closing

end LiteralForm

def staysQuoted (quote : Char) : Text → Bool
  | [] => true
  | '\\' :: [] => false
  | '\\' :: _ :: rest => staysQuoted quote rest
  | c :: rest => c != quote && staysQuoted quote rest

theorem ne_escape (c : Char) (text : Text) (notLast : c = '\\' → text = [] → False)
    (notEscape : ∀ d rest, c = '\\' → text = d :: rest → False) : c ≠ '\\' := by
  intro escape
  cases text with
  | nil => exact notLast escape rfl
  | cons d rest => exact notEscape d rest escape rfl

/-- A text that does not end the comment or string it stands in. Behind a number sign, a bracket would open an
attribute. -/
def LiteralForm.Holds (form : LiteralForm) (content : Text) : Prop :=
  match form with
  | .block => Unclosed content
  | .slashLine => '\n' ∉ content
  | .hashLine => '\n' ∉ content ∧ content.head? ≠ some '['
  | .quoted quote _ => staysQuoted quote content = true

private theorem reads_line (content rest : Text) (unbroken : '\n' ∉ content) :
    Reads .line (content ++ ['\n']) rest (hide content ++ ['\n']) .code := by
  induction content with
  | nil =>
      change Reads .line (['\n'] ++ []) rest (['\n'] ++ []) .code
      exact .step (.closeLine rest) (.done .code rest)
  | cons c content ih =>
      have stays : c ≠ '\n' := fun feed => unbroken (by rw [feed]; exact List.mem_cons_self)
      have later := ih fun member => unbroken (List.mem_cons_of_mem c member)
      rw [hide_cons, List.append_assoc]
      change Reads .line ([c] ++ (content ++ ['\n'])) rest _ .code
      exact .step (.inLine c _ stays) later

private theorem reads_quoted (quote : Char) (isQuoted : isQuote quote = true) (content rest : Text)
    (stays : staysQuoted quote content = true) :
    Reads (.string quote) (content ++ [quote]) rest (hide content ++ [quote]) .code := by
  fun_induction staysQuoted quote content with
  | case1 =>
      change Reads (.string quote) ([quote] ++ []) rest ([quote] ++ []) .code
      exact .step (.closeString quote rest isQuoted) (.done .code rest)
  | case2 => cases stays
  | case3 c content ih =>
      have shown : hide ('\\' :: c :: content) ++ [quote] = (' ' :: blankOut c) ++ (hide content ++ [quote]) := by
        simp only [hide_cons, List.append_assoc, List.cons_append]
        rfl
      rw [shown]
      change Reads (.string quote) (['\\', c] ++ (content ++ [quote])) rest _ .code
      exact .step (.escape quote c _) (ih stays)
  | case4 c content notLast notEscape ih =>
      rw [Bool.and_eq_true, bne_iff_ne] at stays
      have plain := ne_escape c content notLast notEscape
      rw [hide_cons, List.append_assoc]
      change Reads (.string quote) ([c] ++ (content ++ [quote])) rest _ .code
      exact .step (.inString quote c _ stays.1 fun escape => absurd escape plain) (ih stays.2)

/-- A comment or string in code is read up to its own end, whatever it holds. -/
theorem LiteralForm.reads (form : LiteralForm) (content rest : Text) (held : form.Holds content) :
    Reads .code (form.text content) rest (form.textMask content) .code := by
  unfold LiteralForm.text LiteralForm.textMask
  rw [List.append_assoc, List.append_assoc]
  cases form with
  | block =>
      have whole := reads_comment content rest held
      rw [hide_append, hide_append] at whole
      exact whole
  | slashLine => exact .step (.openLine _) (reads_line content rest held)
  | hashLine =>
      obtain ⟨unbroken, noBracket⟩ := held
      have next : (content ++ ['\n'] ++ rest).head? ≠ some '[' := by
        cases content with
        | nil => simp
        | cons c content => exact noBracket
      exact .step (.openHash _ next) (reads_line content rest unbroken)
  | quoted quote isQuoted =>
      exact .step (.openString quote _ isQuoted) (reads_quoted quote isQuoted content rest held)

theorem LiteralForm.mask_eq (form : LiteralForm) (lead content rest : Text) (inCode : ending .code lead = .code)
    (apart : lead.getLast? ≠ some '/') (held : form.Holds content) :
    mask .code (lead ++ form.text content ++ rest) = mask .code lead ++ form.textMask content ++ mask .code rest := by
  have before := reads_of_ending lead (form.text content ++ rest) inCode fun slash => absurd slash apart
  rw [List.append_assoc, before.mask_eq, (form.reads content rest held).mask_eq, List.append_assoc]

def Outline.withoutComment (outline : Outline) : Outline :=
  { outline with docComment := none }

private theorem outline_of_mask (source other className : Text) (same : mask .code source = mask .code other) :
    (outline source className).map Outline.withoutComment = (outline other className).map Outline.withoutComment := by
  unfold outline
  dsimp only
  rw [same]
  cases findDeclaration? (ClassName.short (ClassName.qualified className)) [] 0 (mask .code other) with
  | none => rfl
  | some declaration =>
      simp only [bind, Except.bind]
      cases Text.sameName (namespaceOf declaration.before) (ClassName.enclosing (ClassName.qualified className)) with
      | false => rfl
      | true =>
          cases Text.splitFirst? ['\x7b'] declaration.after with
          | none => rfl
          | some parts => rfl

/-- Two contents of one comment or string in code, with equally many bytes and line feeds at the same ones, leave the
same mask. So a class is found, or missed with the same error, whichever of them stands there, and all that is known
about its code is the same. -/
theorem outline_of_sameLayout (form : LiteralForm) (lead content other rest : Text)
    (inCode : ending .code lead = .code) (apart : lead.getLast? ≠ some '/') (held : form.Holds content)
    (otherHeld : form.Holds other) (layout : SameLayout content other) :
    mask .code (lead ++ form.text content ++ rest) = mask .code (lead ++ form.text other ++ rest) ∧
      ∀ className, (outline (lead ++ form.text content ++ rest) className).map Outline.withoutComment =
        (outline (lead ++ form.text other ++ rest) className).map Outline.withoutComment := by
  have hidden : form.textMask content = form.textMask other := by
    unfold LiteralForm.textMask
    rw [(hide_eq_iff content other).mpr layout]
  have masks : mask .code (lead ++ form.text content ++ rest) = mask .code (lead ++ form.text other ++ rest) := by
    rw [form.mask_eq lead content rest inCode apart held, form.mask_eq lead other rest inCode apart otherHeld, hidden]
  exact ⟨masks, fun className => outline_of_mask _ _ className masks⟩

def labelForm : LiteralForm :=
  .quoted '\x27' rfl

def labelLead : Text :=
  "<?php\nclass Label \x7b public $text = ".toList

def labelRest : Text :=
  "; public $size; \x7d\n".toList

/-- An escaped quote, and then what looks like the end of the class, a comment and another class. -/
def labelContent : Text :=
  "\\\x27; \x7d /*\n class B \x7b".toList

def labelOther : Text :=
  "é \x22\\\\\\\x27\n*/ // #[!!".toList

theorem outline_of_sameLayout_label :
    ending .code labelLead = .code ∧ labelLead.getLast? ≠ some '/' ∧ labelForm.Holds labelContent ∧
      labelForm.Holds labelOther ∧ SameLayout labelContent labelOther ∧
      mask .code (labelLead ++ labelForm.text labelContent ++ labelRest) =
        mask .code (labelLead ++ labelForm.text labelOther ++ labelRest) ∧
      ∀ className, (outline (labelLead ++ labelForm.text labelContent ++ labelRest) className).map
          Outline.withoutComment =
        (outline (labelLead ++ labelForm.text labelOther ++ labelRest) className).map Outline.withoutComment := by
  have inCode : ending .code labelLead = .code := by decide +kernel
  have apart : labelLead.getLast? ≠ some '/' := by decide +kernel
  have held : labelForm.Holds labelContent :=
    show staysQuoted '\x27' labelContent = true by decide +kernel
  have otherHeld : labelForm.Holds labelOther :=
    show staysQuoted '\x27' labelOther = true by decide +kernel
  have layout : SameLayout labelContent labelOther := by decide +kernel
  exact ⟨inCode, apart, held, otherHeld, layout,
    outline_of_sameLayout labelForm labelLead labelContent labelOther labelRest inCode apart held otherHeld layout⟩

end MemberDoc.Source
