import MemberDoc.Proofs.TextSearch
import MemberDoc.Source.Mask
import MemberDoc.Text.WordChar

set_option autoImplicit false

/-! Reading a source piece by piece. Each step takes one or two characters and may look at the next
one, so a text is read together with what follows it. Masks and doc comments of a source are put
together from those of its parts wherever reading passes the place between them in code. -/

namespace MemberDoc.Source

/-- Strings are opened by quotes only. -/
def Mode.IsReal : Mode → Prop
  | .string quote => isQuote quote = true
  | _ => True

/-- One step in a mode: the characters read, what follows them, their mask and the next mode. -/
inductive Token : Mode → Text → Text → Text → Mode → Prop where
  | openBlock (rest : Text) : Token .code ['/', '*'] rest [' ', ' '] .block
  | openLine (rest : Text) : Token .code ['/', '/'] rest [' ', ' '] .line
  | openAttribute (rest : Text) : Token .code ['#', '['] rest ['#', '['] .code
  | openHash (rest : Text) (comment : rest.head? ≠ some '[') : Token .code ['#'] rest [' '] .line
  | openString (quote : Char) (rest : Text) (isQuoted : isQuote quote = true) :
      Token .code [quote] rest [quote] (.string quote)
  | plain (c : Char) (rest : Text) (notHash : c ≠ '#') (notQuote : isQuote c = false)
      (division : c = '/' → rest.head? ≠ some '*' ∧ rest.head? ≠ some '/') : Token .code [c] rest [c] .code
  | closeBlock (rest : Text) : Token .block ['*', '/'] rest [' ', ' '] .code
  | inBlock (c : Char) (rest : Text) (stays : c = '*' → rest.head? ≠ some '/') :
      Token .block [c] rest (blankOut c) .block
  | closeLine (rest : Text) : Token .line ['\n'] rest ['\n'] .code
  | inLine (c : Char) (rest : Text) (stays : c ≠ '\n') : Token .line [c] rest (blankOut c) .line
  | escape (quote c : Char) (rest : Text) :
      Token (.string quote) ['\\', c] rest (' ' :: blankOut c) (.string quote)
  | closeString (quote : Char) (rest : Text) (isQuoted : isQuote quote = true) :
      Token (.string quote) [quote] rest [quote] .code
  | inString (quote c : Char) (rest : Text) (stays : c ≠ quote) (unescaped : c = '\\' → rest = []) :
      Token (.string quote) [c] rest (blankOut c) (.string quote)

def ending : Mode → Text → Mode
  | mode, [] => mode
  | .code, '/' :: '*' :: rest => ending .block rest
  | .code, '/' :: '/' :: rest => ending .line rest
  | .code, '#' :: '[' :: rest => ending .code rest
  | .code, '#' :: rest => ending .line rest
  | .code, c :: rest => ending (if isQuote c then .string c else .code) rest
  | .block, '*' :: '/' :: rest => ending .code rest
  | .block, _ :: rest => ending .block rest
  | .line, '\n' :: rest => ending .code rest
  | .line, _ :: rest => ending .line rest
  | .string quote, '\\' :: _ :: rest => ending (.string quote) rest
  | .string quote, c :: rest => ending (if c = quote then .code else .string quote) rest

def openedComment (offset : Nat) (mode : Mode) (read rest : Text) : List DocComment :=
  if mode = .code ∧ read = ['/', '*'] then ((docCommentText? rest).map (DocComment.mk offset)).toList else []

/-- What one step contributes to the mask, to the doc comments and to the mode at the end. -/
theorem Token.equations {mode next : Mode} {read rest shown : Text} (token : Token mode read rest shown next)
    (offset : Nat) :
    mask mode (read ++ rest) = shown ++ mask next rest ∧ ending mode (read ++ rest) = ending next rest ∧
      docComments offset mode (read ++ rest) =
        openedComment offset mode read rest ++ docComments (offset + Text.byteLength read) next rest := by
  have hashSize : '#'.utf8Size = 1 := rfl
  have escapeSize : '\\'.utf8Size = 1 := rfl
  cases token with
  | openBlock | openLine | openAttribute | closeBlock | closeLine => exact ⟨rfl, rfl, rfl⟩
  | escape quote c =>
      refine ⟨rfl, rfl, ?_⟩
      simp [docComments, openedComment, Text.byteLength, Nat.add_assoc, escapeSize]
  | openHash _ comment =>
      cases rest with
      | nil => exact ⟨rfl, rfl, rfl⟩
      | cons c tail =>
          have notOpen : c ≠ '[' := fun same => comment (by rw [same]; rfl)
          simp [mask, ending, docComments, openedComment, Text.byteLength, notOpen, hashSize]
  | openString _ _ isQuoted =>
      simp only [isQuote, Bool.or_eq_true, beq_iff_eq] at isQuoted
      rcases isQuoted with rfl | rfl <;> cases rest <;> exact ⟨rfl, rfl, rfl⟩
  | plain c _ notHash notQuote division =>
      cases rest with
      | nil => simp [mask, ending, docComments, openedComment, notQuote]
      | cons d tail =>
          by_cases slash : c = '/'
          · obtain ⟨notStar, notSlash⟩ := division slash
            have star : d ≠ '*' := fun same => notStar (by rw [same]; rfl)
            have twice : d ≠ '/' := fun same => notSlash (by rw [same]; rfl)
            subst slash
            simp [mask, ending, docComments, openedComment, Text.byteLength, star, twice, isQuote]
          · simp [mask, ending, docComments, openedComment, Text.byteLength, slash, notHash, notQuote]
  | inBlock c _ stays =>
      cases rest with
      | nil => simp [mask, ending, docComments, openedComment]
      | cons d tail =>
          by_cases star : c = '*'
          · have notSlash : d ≠ '/' := fun same => stays star (by rw [same]; rfl)
            simp [mask, ending, docComments, openedComment, Text.byteLength, notSlash]
          · simp [mask, ending, docComments, openedComment, Text.byteLength, star]
  | inLine c _ stays => simp [mask, ending, docComments, openedComment, Text.byteLength]
  | closeString quote _ isQuoted =>
      simp only [isQuote, Bool.or_eq_true, beq_iff_eq] at isQuoted
      rcases isQuoted with rfl | rfl <;> cases rest <;> exact ⟨rfl, rfl, rfl⟩
  | inString quote c _ stays unescaped =>
      cases rest with
      | nil => simp [mask, ending, docComments, openedComment, stays]
      | cons d tail =>
          have notEscape : c ≠ '\\' := fun same => List.cons_ne_nil d tail (unescaped same)
          simp [mask, ending, docComments, openedComment, Text.byteLength, notEscape, stays]

theorem Token.exists (mode : Mode) (real : mode.IsReal) (text : Text) (nonempty : text ≠ []) :
    ∃ read rest shown next, text = read ++ rest ∧ read ≠ [] ∧ Token mode read rest shown next := by
  cases text with
  | nil => exact absurd rfl nonempty
  | cons c rest =>
      cases mode with
      | code =>
          by_cases hash : c = '#'
          · subst hash
            by_cases bracket : rest.head? = some '['
            · obtain ⟨tail, rfl⟩ := List.head?_eq_some_iff.mp bracket
              exact ⟨_, tail, _, _, rfl, List.cons_ne_nil _ _, .openAttribute tail⟩
            · exact ⟨['#'], rest, _, _, rfl, List.cons_ne_nil _ _, .openHash rest bracket⟩
          · cases quoted : isQuote c with
            | true => exact ⟨[c], rest, _, _, rfl, List.cons_ne_nil _ _, .openString c rest quoted⟩
            | false =>
                by_cases slash : c = '/'
                · subst slash
                  by_cases star : rest.head? = some '*'
                  · obtain ⟨tail, rfl⟩ := List.head?_eq_some_iff.mp star
                    exact ⟨_, tail, _, _, rfl, List.cons_ne_nil _ _, .openBlock tail⟩
                  · by_cases twice : rest.head? = some '/'
                    · obtain ⟨tail, rfl⟩ := List.head?_eq_some_iff.mp twice
                      exact ⟨_, tail, _, _, rfl, List.cons_ne_nil _ _, .openLine tail⟩
                    · exact ⟨['/'], rest, _, _, rfl, List.cons_ne_nil _ _,
                        .plain '/' rest hash quoted fun _ => ⟨star, twice⟩⟩
                · exact ⟨[c], rest, _, _, rfl, List.cons_ne_nil _ _,
                    .plain c rest hash quoted fun same => absurd same slash⟩
      | block =>
          by_cases closing : c = '*' ∧ rest.head? = some '/'
          · obtain ⟨rfl, slash⟩ := closing
            obtain ⟨tail, rfl⟩ := List.head?_eq_some_iff.mp slash
            exact ⟨_, tail, _, _, rfl, List.cons_ne_nil _ _, .closeBlock tail⟩
          · exact ⟨[c], rest, _, _, rfl, List.cons_ne_nil _ _,
              .inBlock c rest fun star slash => closing ⟨star, slash⟩⟩
      | line =>
          by_cases feed : c = '\n'
          · subst feed
            exact ⟨['\n'], rest, _, _, rfl, List.cons_ne_nil _ _, .closeLine rest⟩
          · exact ⟨[c], rest, _, _, rfl, List.cons_ne_nil _ _, .inLine c rest feed⟩
      | string quote =>
          by_cases escaped : c = '\\' ∧ rest ≠ []
          · obtain ⟨rfl, more⟩ := escaped
            obtain ⟨d, tail, rfl⟩ := List.exists_cons_of_ne_nil more
            exact ⟨_, tail, _, _, rfl, by simp, .escape quote d tail⟩
          · have unescaped : c = '\\' → rest = [] := fun same =>
              Decidable.byContradiction fun more => escaped ⟨same, more⟩
            by_cases closing : c = quote
            · subst closing
              exact ⟨[c], rest, _, _, rfl, List.cons_ne_nil _ _, .closeString c rest real⟩
            · exact ⟨[c], rest, _, _, rfl, List.cons_ne_nil _ _, .inString quote c rest closing unescaped⟩

/-- A step depends on what follows only through the next character. -/
theorem Token.swap {mode next : Mode} {read rest shown : Text} (token : Token mode read rest shown next)
    (other : Text) (same : rest.head? = other.head?) : Token mode read other shown next := by
  have emptied (gone : rest = []) : other = [] := by
    rw [gone] at same
    exact List.head?_eq_none_iff.mp same.symm
  cases token with
  | openBlock => exact .openBlock other
  | openLine => exact .openLine other
  | openAttribute => exact .openAttribute other
  | openHash _ comment => exact .openHash other (same ▸ comment)
  | openString quote _ isQuoted => exact .openString quote other isQuoted
  | plain c _ notHash notQuote division => exact .plain c other notHash notQuote (same ▸ division)
  | closeBlock => exact .closeBlock other
  | inBlock c _ stays => exact .inBlock c other (same ▸ stays)
  | closeLine => exact .closeLine other
  | inLine c _ stays => exact .inLine c other stays
  | escape quote c => exact .escape quote c other
  | closeString quote _ isQuoted => exact .closeString quote other isQuoted
  | inString quote c _ stays unescaped =>
      exact .inString quote c other stays fun escape => emptied (unescaped escape)

private theorem Token.alone {mode next : Mode} {read rest shown : Text} (token : Token mode read rest shown next) :
    Token mode read [] shown next := by
  cases token with
  | openBlock => exact .openBlock []
  | openLine => exact .openLine []
  | openAttribute => exact .openAttribute []
  | openHash => exact .openHash [] (by simp)
  | openString quote _ isQuoted => exact .openString quote [] isQuoted
  | plain c _ notHash notQuote => exact .plain c [] notHash notQuote fun _ => by simp
  | closeBlock => exact .closeBlock []
  | inBlock c => exact .inBlock c [] fun _ => by simp
  | closeLine => exact .closeLine []
  | inLine c _ stays => exact .inLine c [] stays
  | escape quote c => exact .escape quote c []
  | closeString quote _ isQuoted => exact .closeString quote [] isQuoted
  | inString quote c _ stays => exact .inString quote c [] stays fun _ => rfl

theorem Token.next_real {mode next : Mode} {read rest shown : Text} (token : Token mode read rest shown next)
    (real : mode.IsReal) : next.IsReal := by
  cases token with
  | openString _ _ isQuoted => exact isQuoted
  | escape | inString => exact real
  | _ => exact True.intro

theorem Token.read_ne_nil {mode next : Mode} {read rest shown : Text} (token : Token mode read rest shown next) :
    read ≠ [] := by
  cases token <;> simp

/-- A character that the mask takes from the source only: not a space, line feed or bracket. -/
def isSolid (c : Char) : Bool :=
  c != ' ' && c != '\n' && c != '#' && c != '[' && !isQuote c

private theorem Token.of_solid {mode next : Mode} {read rest shown : Text} (token : Token mode read rest shown next)
    (c : Char) (solid : isSolid c = true) (member : c ∈ shown) :
    mode = .code ∧ read = [c] ∧ shown = [c] ∧ next = .code := by
  have notBlank (d : Char) : c ∉ blankOut d := by
    intro hidden
    unfold blankOut at hidden
    split at hidden
    · rw [List.mem_singleton] at hidden
      simp [hidden, isSolid] at solid
    · rw [(List.mem_replicate.mp hidden).2] at solid
      simp [isSolid] at solid
  cases token with
  | plain d =>
      rw [List.mem_singleton] at member
      subst member
      exact ⟨rfl, rfl, rfl, rfl⟩
  | inBlock d | inLine d | inString _ d => exact absurd member (notBlank d)
  | escape _ d =>
      rcases List.mem_cons.mp member with space | hidden
      · simp [space, isSolid] at solid
      · exact absurd hidden (notBlank d)
  | openString quote _ isQuoted | closeString quote _ isQuoted =>
      rw [List.mem_singleton] at member
      simp [member, isSolid, isQuoted] at solid
  | openBlock | openLine | openAttribute | openHash | closeBlock | closeLine =>
      simp only [List.mem_cons, List.not_mem_nil, or_false] at member
      rcases member with rfl | rfl <;> simp [isSolid] at solid

/-- Steps through a whole text in front of another one, with its mask and the mode behind it. -/
inductive Reads : Mode → Text → Text → Text → Mode → Prop where
  | done (mode : Mode) (rest : Text) : Reads mode [] rest [] mode
  | step {mode middle next : Mode} {read text rest shown more : Text}
      (token : Token mode read (text ++ rest) shown middle) (later : Reads middle text rest more next) :
      Reads mode (read ++ text) rest (shown ++ more) next

theorem Reads.append {mode middle next : Mode} {left right rest shown more : Text}
    (first : Reads mode left (right ++ rest) shown middle) (second : Reads middle right rest more next) :
    Reads mode (left ++ right) rest (shown ++ more) next := by
  generalize behind : right ++ rest = following at first
  induction first with
  | done => exact second
  | step token later ih =>
      subst behind
      rw [List.append_assoc, List.append_assoc]
      rw [← List.append_assoc] at token
      exact .step token (ih second rfl)

theorem Reads.mask_eq {mode next : Mode} {text rest shown : Text} (reads : Reads mode text rest shown next) :
    mask mode (text ++ rest) = shown ++ mask next rest := by
  induction reads with
  | done => rfl
  | step token later ih => rw [List.append_assoc, (token.equations 0).1, ih, List.append_assoc]

theorem Reads.ending_eq {mode next : Mode} {text rest shown : Text} (reads : Reads mode text rest shown next) :
    ending mode (text ++ rest) = ending next rest := by
  induction reads with
  | done => rfl
  | step token later ih => rw [List.append_assoc, (token.equations 0).2.1, ih]

theorem Reads.swap {mode next : Mode} {text rest shown : Text} (reads : Reads mode text rest shown next)
    (other : Text) (same : rest.head? = other.head?) : Reads mode text other shown next := by
  induction reads with
  | done mode => exact .done mode other
  | step token later ih =>
      refine .step (token.swap _ ?_) (ih same)
      rw [List.head?_append, List.head?_append, same]

theorem Token.cut {mode next : Mode} {read text rest shown : Text}
    (token : Token mode read (text ++ rest) shown next) : Token mode read text shown next := by
  cases text with
  | nil => exact token.alone
  | cons c text => exact token.swap _ rfl

private theorem Reads.alone {mode next : Mode} {text rest shown : Text} (reads : Reads mode text rest shown next) :
    Reads mode text [] shown next := by
  induction reads with
  | done mode => exact .done mode []
  | step token later ih =>
      refine .step ?_ ih
      rw [List.append_nil]
      exact token.cut

theorem Reads.shown_eq {mode next : Mode} {text rest shown : Text} (reads : Reads mode text rest shown next) :
    shown = mask mode text := by
  have whole := reads.alone.mask_eq
  rw [List.append_nil] at whole
  rw [whole, mask, List.append_nil]

/-- What follows code matters only to a slash at its end. -/
theorem Reads.followed {mode : Mode} {text rest shown : Text} (reads : Reads mode text rest shown .code)
    (other : Text)
    (apart : text.getLast? = some '/' → other.head? ≠ some '*' ∧ other.head? ≠ some '/') :
    Reads mode text other shown .code := by
  generalize last : Mode.code = next at reads
  induction reads with
  | done mode => exact .done mode other
  | step token later ih =>
      rename_i mode middle next read text rest shown more
      cases text with
      | nil =>
          have ended : middle = next ∧ more = [] := by
            generalize nothing : ([] : Text) = empty at later
            cases later with
            | done => exact ⟨rfl, rfl⟩
            | step another =>
                have taken := List.append_eq_nil_iff.mp nothing.symm
                exact absurd taken.1 another.read_ne_nil
          obtain ⟨rfl, rfl⟩ := ended
          subst last
          refine .step ?_ (.done .code other)
          rw [List.append_nil] at apart
          rw [List.nil_append]
          cases token with
          | openAttribute => exact .openAttribute other
          | plain c _ notHash notQuote =>
              exact .plain c other notHash notQuote fun slash => apart (by rw [slash]; rfl)
          | closeBlock => exact .closeBlock other
          | closeLine => exact .closeLine other
          | closeString quote _ isQuoted => exact .closeString quote other isQuoted
      | cons c text =>
          refine .step (token.swap _ rfl) (ih (fun slash => apart ?_) last)
          rw [List.getLast?_append, slash]
          rfl

theorem reads_self (mode : Mode) (real : mode.IsReal) (text : Text) :
    Reads mode text [] (mask mode text) (ending mode text) := by
  generalize size : text.length = count
  induction count using Nat.strongRecOn generalizing mode text with
  | ind count ih =>
      by_cases empty : text = []
      · subst empty
        cases mode <;> exact .done _ []
      · obtain ⟨read, rest, shown, next, whole, taken, token⟩ := Token.exists mode real text empty
        have positive := List.length_pos_iff.mpr taken
        have shorter : rest.length < count := by
          rw [← size, whole, List.length_append]
          omega
        obtain ⟨masked, ended, _⟩ := token.equations 0
        rw [whole, masked, ended]
        refine .step ?_ (ih rest.length shorter next (token.next_real real) rest rfl)
        rw [List.append_nil]
        exact token

theorem reads_of_ending (text rest : Text) (ended : ending .code text = .code)
    (apart : text.getLast? = some '/' → rest.head? ≠ some '*' ∧ rest.head? ≠ some '/') :
    Reads .code text rest (mask .code text) .code := by
  have whole := reads_self .code True.intro text
  rw [ended] at whole
  exact whole.followed rest apart

/-- A solid character of a mask stands in code of the source. -/
theorem reads_of_solid (mode : Mode) (real : mode.IsReal) (text shown behind : Text) (c : Char)
    (solid : isSolid c = true) (masked : mask mode text = shown ++ c :: behind) :
    ∃ before rest, text = before ++ c :: rest ∧ Reads mode before (c :: rest) shown .code ∧
      mask .code rest = behind := by
  generalize size : text.length = count
  induction count using Nat.strongRecOn generalizing mode text shown with
  | ind count ih =>
      have nonempty : text ≠ [] := by
        intro empty
        rw [empty, mask] at masked
        exact List.append_ne_nil_of_right_ne_nil shown (List.cons_ne_nil c behind) masked.symm
      obtain ⟨read, rest, own, next, whole, taken, token⟩ := Token.exists mode real text nonempty
      have positive := List.length_pos_iff.mpr taken
      have shorter : rest.length < count := by
        rw [← size, whole, List.length_append]
        omega
      have later (deeper : Text) (longer : shown = own ++ deeper) (inner : mask next rest = deeper ++ c :: behind) :
          ∃ before following, text = before ++ c :: following ∧
            Reads mode before (c :: following) shown .code ∧ mask .code following = behind := by
        obtain ⟨before, following, place, reads, masked⟩ :=
          ih rest.length shorter next (token.next_real real) rest deeper inner rfl
        rw [place] at token
        exact ⟨read ++ before, following, by rw [whole, place, List.append_assoc],
          by rw [longer]; exact .step token reads, masked⟩
      rw [whole, (token.equations 0).1] at masked
      rcases List.append_eq_append_iff.mp masked with ⟨deeper, longer, inner⟩ | ⟨kept, longer, inner⟩
      · exact later deeper longer inner
      · cases kept with
        | nil => exact later [] (by rw [longer, List.append_nil, List.append_nil]) inner.symm
        | cons d kept =>
            obtain ⟨rfl, restMask⟩ := List.cons.inj inner
            have visible : c ∈ own := by
              rw [longer]
              exact List.mem_append_right shown List.mem_cons_self
            obtain ⟨rfl, rfl, rfl, rfl⟩ := token.of_solid c solid visible
            have sizes := congrArg List.length longer
            simp only [List.length_append, List.length_cons, List.length_nil] at sizes
            have noLead : shown = [] := List.length_eq_zero_iff.mp (by omega)
            have noTail : kept = [] := List.length_eq_zero_iff.mp (by omega)
            subst noLead noTail
            exact ⟨[], rest, whole, .done .code _, restMask.symm⟩

@[simp, grind =] theorem byteLength_blankOut (c : Char) : Text.byteLength (blankOut c) = c.utf8Size := by
  have spaces (count : Nat) : Text.byteLength (List.replicate count ' ') = count := by
    induction count with
    | zero => rfl
    | succ count ih =>
        have spaceSize : ' '.utf8Size = 1 := rfl
        rw [List.replicate_succ, Text.byteLength, ih, spaceSize]
        omega
  unfold blankOut
  split
  · rename_i feed
    rw [feed]
    rfl
  · exact spaces _

theorem Token.byteLength_shown {mode next : Mode} {read rest shown : Text}
    (token : Token mode read rest shown next) : Text.byteLength shown = Text.byteLength read := by
  cases token with
  | inBlock c | inLine c | inString _ c => simp [Text.byteLength]
  | escape _ c =>
      have escapeSize : '\\'.utf8Size = 1 := rfl
      have spaceSize : ' '.utf8Size = 1 := rfl
      simp [Text.byteLength, escapeSize, spaceSize]
  | _ => rfl

theorem Reads.byteLength_shown {mode next : Mode} {text rest shown : Text}
    (reads : Reads mode text rest shown next) : Text.byteLength shown = Text.byteLength text := by
  induction reads with
  | done => rfl
  | step token later ih => simp [token.byteLength_shown, ih]

@[simp, grind =] theorem byteLength_mask (text : Text) : Text.byteLength (mask .code text) = Text.byteLength text :=
  (reads_self .code True.intro text).byteLength_shown

def isInert (c : Char) : Bool :=
  c != '/' && c != '#' && !isQuote c

theorem reads_inert (text rest : Text) (inert : ∀ c ∈ text, isInert c = true) : Reads .code text rest text .code := by
  induction text with
  | nil => exact .done .code rest
  | cons c text ih =>
      have here := inert c List.mem_cons_self
      simp only [isInert, Bool.and_eq_true, bne_iff_ne, ne_eq, Bool.not_eq_true'] at here
      have later := ih fun d member => inert d (List.mem_cons_of_mem c member)
      change Reads .code ([c] ++ text) rest ([c] ++ text) .code
      exact .step (.plain c _ here.1.2 here.2 fun slash => absurd slash here.1.1) later

theorem isInert_of_isWord (c : Char) (word : Text.isWord c = true) : isInert c = true := by
  have other (d : Char) (apart : Text.isWord d = false) : c ≠ d := by
    rintro rfl
    rw [word] at apart
    cases apart
  simp [isInert, isQuote, other '/' rfl, other '#' rfl, other '\x22' rfl, other '\x27' rfl]

def hide (text : Text) : Text :=
  text.flatMap blankOut

@[simp] theorem hide_cons (c : Char) (text : Text) : hide (c :: text) = blankOut c ++ hide text :=
  List.flatMap_cons

@[simp] theorem hide_append (left right : Text) : hide (left ++ right) = hide left ++ hide right :=
  List.flatMap_append

theorem isSpace_of_mem_hide (text : Text) (c : Char) (member : c ∈ hide text) : c = ' ' ∨ c = '\n' := by
  obtain ⟨d, _, inner⟩ := List.mem_flatMap.mp member
  unfold blankOut at inner
  split at inner
  · exact .inr (List.mem_singleton.mp inner)
  · exact .inl (List.mem_replicate.mp inner).2

def Unclosed (text : Text) : Prop :=
  ¬ ['*', '/'] <:+: text

instance (text : Text) : Decidable (Unclosed text) :=
  inferInstanceAs (Decidable (¬ ['*', '/'] <:+: text))

theorem Unclosed.of_part {part text : Text} (unclosed : Unclosed text) (inside : part <:+: text) : Unclosed part :=
  fun closing => unclosed (closing.trans inside)

theorem Unclosed.not_slash {c : Char} {text : Text} (unclosed : Unclosed (c :: text)) (star : c = '*') :
    text.head? ≠ some '/' := by
  intro slash
  obtain ⟨rest, rfl⟩ := List.head?_eq_some_iff.mp slash
  exact unclosed ⟨[], rest, by rw [star]; rfl⟩

theorem Unclosed.token {c : Char} {text : Text} (unclosed : Unclosed (c :: text)) (rest : Text) :
    Token .block [c] (text ++ ['*', '/'] ++ rest) (blankOut c) .block := by
  refine .inBlock c _ fun star => ?_
  have next := unclosed.not_slash star
  cases text with
  | nil => simp
  | cons d text => simpa using next

theorem Unclosed.tail {c : Char} {text : Text} (unclosed : Unclosed (c :: text)) : Unclosed text :=
  unclosed.of_part (List.suffix_cons c text).isInfix

private theorem reads_hidden (inner rest : Text) (unclosed : Unclosed inner) :
    Reads .block (inner ++ ['*', '/']) rest (hide inner ++ [' ', ' ']) .code := by
  induction inner with
  | nil =>
      change Reads .block (['*', '/'] ++ []) rest ([' ', ' '] ++ []) .code
      exact .step (.closeBlock rest) (.done .code rest)
  | cons c inner ih =>
      rw [hide_cons, List.append_assoc]
      change Reads .block ([c] ++ (inner ++ ['*', '/'])) rest _ .code
      exact .step (unclosed.token rest) (ih unclosed.tail)

theorem docComments_hidden (offset : Nat) (inner rest : Text) (unclosed : Unclosed inner) :
    docComments offset .block (inner ++ ['*', '/'] ++ rest) =
      docComments (offset + Text.byteLength (inner ++ ['*', '/'])) .code rest := by
  induction inner generalizing offset with
  | nil => exact (Token.closeBlock rest).equations offset |>.2.2
  | cons c inner ih =>
      have first := ((unclosed.token rest).equations offset).2.2
      rw [List.singleton_append] at first
      rw [List.cons_append, List.cons_append, first, ih _ unclosed.tail, Text.byteLength, Nat.add_assoc]
      rfl

/-- A comment has a mask of its own length and ends in code. -/
theorem reads_comment (inner rest : Text) (unclosed : Unclosed inner) :
    Reads .code (['/', '*'] ++ (inner ++ ['*', '/'])) rest (hide (['/', '*'] ++ (inner ++ ['*', '/']))) .code := by
  have shown : hide (['/', '*'] ++ (inner ++ ['*', '/'])) = [' ', ' '] ++ (hide inner ++ [' ', ' ']) := by
    rw [hide_append, hide_append]
    rfl
  rw [shown]
  exact .step (.openBlock _) (reads_hidden inner rest unclosed)

theorem splitFirst_closing (inner rest : Text) (unclosed : Unclosed inner) :
    Text.splitFirst? ['*', '/'] (inner ++ ['*', '/'] ++ rest) = some (inner, rest) := by
  induction inner with
  | nil => rfl
  | cons c inner ih =>
      rw [List.cons_append, List.cons_append, Text.splitFirst?]
      have notHere : Text.after? ['*', '/'] (c :: (inner ++ ['*', '/'] ++ rest)) = none := by
        cases found : Text.after? ['*', '/'] (c :: (inner ++ ['*', '/'] ++ rest)) with
        | none => rfl
        | some behind =>
            have place := (Text.after_eq_some_iff _ _ _).mp found
            obtain ⟨star, tail⟩ := List.cons.inj place
            have next := unclosed.not_slash star
            cases inner with
            | nil => simp at tail
            | cons d inner => simp_all
      rw [notHere, ih unclosed.tail]
      rfl

/-- A doc comment is found at its own place and hides nothing else. -/
theorem docComments_comment (offset : Nat) (inner rest : Text) (unclosed : Unclosed ('*' :: inner)) :
    docComments offset .code (['/', '*'] ++ ('*' :: inner ++ ['*', '/']) ++ rest) =
      ⟨offset, ['/', '*'] ++ ('*' :: inner ++ ['*', '/'])⟩ ::
        docComments (offset + Text.byteLength (['/', '*'] ++ ('*' :: inner ++ ['*', '/']))) .code rest := by
  have first := ((Token.openBlock ('*' :: inner ++ ['*', '/'] ++ rest)).equations offset).2.2
  have opened : docCommentText? ('*' :: inner ++ ['*', '/'] ++ rest) =
      some (['/', '*'] ++ ('*' :: inner ++ ['*', '/'])) := by
    unfold docCommentText?
    rw [splitFirst_closing _ rest unclosed]
    rfl
  rw [List.append_assoc, first, docComments_hidden _ _ _ unclosed, openedComment, if_pos ⟨rfl, rfl⟩, opened,
    Text.byteLength_append ['/', '*'], Nat.add_assoc]
  rfl

/-- Reading that leaves a block comment passes its end. -/
theorem Reads.closed {rest shown text : Text} {mode next : Mode} (reads : Reads mode text rest shown next)
    (inside : mode = .block) (left : next = .code) :
    ∃ inner tail, text = inner ++ ['*', '/'] ++ tail ∧ Unclosed inner := by
  induction reads with
  | done mode =>
      rw [inside] at left
      cases left
  | step token later ih =>
      subst inside
      cases token with
      | closeBlock => exact ⟨[], _, rfl, by simp [Unclosed]⟩
      | inBlock c _ stays =>
          obtain ⟨inner, tail, place, unclosed⟩ := ih rfl left
          refine ⟨c :: inner, tail, by rw [place]; rfl, ?_⟩
          intro closing
          rcases List.infix_cons_iff.mp closing with start | deeper
          · obtain ⟨behind, same⟩ := start
            obtain ⟨star, next⟩ := List.cons.inj same
            apply stays star.symm
            rw [place, ← next]
            rfl
          · exact unclosed deeper

private theorem Reads.leave_block {inner tail rest shown : Text} {next : Mode} (unclosed : Unclosed inner)
    (reads : Reads .block (inner ++ ['*', '/'] ++ tail) rest shown next) :
    ∃ more, shown = hide inner ++ [' ', ' '] ++ more ∧ Reads .code tail rest more next := by
  induction inner generalizing shown with
  | nil =>
      generalize whole : [] ++ ['*', '/'] ++ tail = text at reads
      cases reads with
      | done => cases whole
      | step token later =>
          cases token with
          | closeBlock =>
              obtain ⟨_, same⟩ := List.cons.inj whole
              obtain ⟨_, rfl⟩ := List.cons.inj same
              exact ⟨_, rfl, later⟩
          | inBlock c _ stays =>
              obtain ⟨star, same⟩ := List.cons.inj whole
              refine absurd ?_ (stays star.symm)
              cases same
              rfl
  | cons c inner ih =>
      generalize whole : c :: inner ++ ['*', '/'] ++ tail = text at reads
      cases reads with
      | done => cases whole
      | step token later =>
          cases token with
          | closeBlock =>
              obtain ⟨star, same⟩ := List.cons.inj whole
              refine absurd ?_ (unclosed.not_slash star)
              cases inner with
              | nil => cases same
              | cons d inner =>
                  obtain ⟨slash, _⟩ := List.cons.inj same
                  rw [slash]
                  rfl
          | inBlock d =>
              obtain ⟨rfl, rfl⟩ := List.cons.inj whole
              obtain ⟨more, place, reads⟩ := ih unclosed.tail later
              refine ⟨more, ?_, reads⟩
              rw [place, hide_cons]
              simp only [List.append_assoc]

theorem unclosed_of_splitFirst (text inner tail : Text)
    (closing : Text.splitFirst? ['*', '/'] text = some (inner, tail)) : Unclosed inner := by
  rintro ⟨before, behind, inside⟩
  have earlier : text = before ++ ['*', '/'] ++ (behind ++ ['*', '/'] ++ tail) := by
    rw [Text.splitFirst_append _ _ _ _ closing, ← inside]
    simp only [List.append_assoc]
  have bound := Text.splitFirst_first _ _ _ _ closing before _ earlier
  rw [← inside] at bound
  simp only [List.length_append, List.length_cons, List.length_nil] at bound
  omega

theorem docCommentText_eq (rest text : Text) (found : docCommentText? rest = some text) :
    ∃ inner tail, text = ['/', '*'] ++ ('*' :: inner ++ ['*', '/']) ∧
      rest = '*' :: inner ++ ['*', '/'] ++ tail ∧ Unclosed ('*' :: inner) := by
  unfold docCommentText? at found
  split at found
  · rename_i inner tail closing
    cases found
    exact ⟨inner, tail, by simp, Text.splitFirst_append _ _ _ _ closing, unclosed_of_splitFirst _ _ _ closing⟩
  · cases found

private theorem docCommentText_extend {text rest shown : Text} (reads : Reads .block text rest shown .code) :
    docCommentText? (text ++ rest) = docCommentText? text := by
  obtain ⟨inner, tail, place, unclosed⟩ := reads.closed rfl rfl
  rw [place]
  unfold docCommentText?
  rw [List.append_assoc _ tail, splitFirst_closing _ _ unclosed, splitFirst_closing _ _ unclosed]
  cases inner with
  | nil => rfl
  | cons c inner =>
      by_cases star : c = '*'
      · subst star
        rfl
      · simp [star]

private theorem Token.openedComment_cut {mode middle : Mode} {read text rest shown more : Text}
    (token : Token mode read (text ++ rest) shown middle) (later : Reads middle text rest more .code)
    (offset : Nat) : openedComment offset mode read (text ++ rest) = openedComment offset mode read text := by
  unfold openedComment
  split
  · rename_i opening
    obtain ⟨rfl, rfl⟩ := opening
    have inside : middle = .block := by
      generalize letters : ['/', '*'] = read at token
      cases token with
      | openBlock => rfl
      | _ => simp_all
    rw [inside] at later
    rw [docCommentText_extend later]
  · rfl

theorem Reads.docComments_append {mode : Mode} {text rest shown : Text} (reads : Reads mode text rest shown .code)
    (offset : Nat) :
    docComments offset mode (text ++ rest) =
      docComments offset mode text ++ docComments (offset + Text.byteLength text) .code rest := by
  generalize last : Mode.code = next at reads
  induction reads generalizing offset with
  | done mode =>
      subst last
      rfl
  | step token later ih =>
      subst last
      rw [List.append_assoc, (token.equations offset).2.2, (token.cut.equations offset).2.2,
        token.openedComment_cut later, ih _ rfl, Text.byteLength_append, List.append_assoc, Nat.add_assoc]

def DocComment.shift (count : Nat) (comment : DocComment) : DocComment :=
  ⟨count + comment.start, comment.text⟩

theorem docComments_shift (count offset : Nat) (mode : Mode) (real : mode.IsReal) (text : Text) :
    docComments (count + offset) mode text = (docComments offset mode text).map (·.shift count) := by
  generalize size : text.length = length
  induction length using Nat.strongRecOn generalizing mode text offset with
  | ind length ih =>
      by_cases empty : text = []
      · subst empty
        cases mode <;> rfl
      · obtain ⟨read, rest, shown, next, whole, taken, token⟩ := Token.exists mode real text empty
        have positive := List.length_pos_iff.mpr taken
        have shorter : rest.length < length := by
          rw [← size, whole, List.length_append]
          omega
        have opened : openedComment (count + offset) mode read rest =
            (openedComment offset mode read rest).map (·.shift count) := by
          unfold openedComment
          split
          · cases docCommentText? rest <;> rfl
          · rfl
        rw [whole, (token.equations _).2.2, (token.equations offset).2.2, List.map_append, opened, Nat.add_assoc,
          ih rest.length shorter _ next (token.next_real real) rest rfl]

theorem docComments_offset (offset other : Nat) (mode : Mode) (real : mode.IsReal) (text : Text)
    (uncommented : docComments offset mode text = []) : docComments other mode text = [] := by
  have fromStart (place : Nat) : docComments place mode text = (docComments 0 mode text).map (·.shift place) :=
    docComments_shift place 0 mode real text
  rw [fromStart, List.map_eq_nil_iff] at uncommented
  rw [fromStart, uncommented]
  rfl

theorem start_of_mem_docComments (offset : Nat) (mode : Mode) (real : mode.IsReal) (text : Text)
    (comment : DocComment) (member : comment ∈ docComments offset mode text) :
    offset ≤ comment.start ∧ comment.start < comment.stop := by
  generalize size : text.length = count
  induction count using Nat.strongRecOn generalizing mode text offset with
  | ind count ih =>
      by_cases empty : text = []
      · subst empty
        cases mode <;> cases member
      · obtain ⟨read, rest, shown, next, whole, taken, token⟩ := Token.exists mode real text empty
        have positive := List.length_pos_iff.mpr taken
        have shorter : rest.length < count := by
          rw [← size, whole, List.length_append]
          omega
        rw [whole, (token.equations offset).2.2, List.mem_append] at member
        rcases member with opened | later
        · unfold openedComment at opened
          split at opened
          · rw [Option.mem_toList, Option.map_eq_some_iff] at opened
            obtain ⟨found, known, rfl⟩ := opened
            obtain ⟨inner, tail, rfl, _, _⟩ := docCommentText_eq rest found known
            refine ⟨Nat.le_refl _, ?_⟩
            have positive := Text.byteLength_pos '/' ('*' :: ('*' :: inner ++ ['*', '/']))
            simp only [DocComment.stop, List.cons_append, List.nil_append]
            simp only [List.cons_append] at positive
            omega
          · cases opened
        · have bound := ih rest.length shorter _ next (token.next_real real) rest later rfl
          omega

/-- A doc comment cuts the text that holds it into what is read before, the comment, and the rest. -/
theorem Reads.cut_comment {mode : Mode} {text rest shown : Text} (reads : Reads mode text rest shown .code)
    (offset : Nat) (comment : DocComment) (member : comment ∈ docComments offset mode text) :
    ∃ before inner behind leadMask tailMask,
      comment.text = ['/', '*'] ++ ('*' :: inner ++ ['*', '/']) ∧ Unclosed ('*' :: inner) ∧
      text = before ++ (comment.text ++ behind) ∧ comment.start = offset + Text.byteLength before ∧
      shown = leadMask ++ (hide comment.text ++ tailMask) ∧
      Reads mode before (comment.text ++ behind ++ rest) leadMask .code ∧
      Reads .code behind rest tailMask .code := by
  generalize last : Mode.code = next at reads
  induction reads generalizing offset with
  | done mode => cases mode <;> cases member
  | step token later ih =>
      subst last
      rename_i mode middle read text rest shown more
      rw [(token.cut.equations offset).2.2, List.mem_append] at member
      rcases member with opened | deeper
      · unfold openedComment at opened
        split at opened
        · rename_i opening
          obtain ⟨rfl, rfl⟩ := opening
          rw [Option.mem_toList, Option.map_eq_some_iff] at opened
          obtain ⟨found, known, rfl⟩ := opened
          obtain ⟨inner, tail, rfl, place, unclosed⟩ := docCommentText_eq text found known
          subst place
          have opens : middle = .block ∧ shown = [' ', ' '] := by
            generalize letters : ['/', '*'] = read at token
            cases token with
            | openBlock => exact ⟨rfl, rfl⟩
            | _ => simp_all
          obtain ⟨rfl, rfl⟩ := opens
          obtain ⟨tailMask, masked, reads⟩ := later.leave_block unclosed
          refine ⟨[], inner, tail, [], tailMask, rfl, unclosed, by simp, rfl, ?_, .done .code _, reads⟩
          rw [masked]
          simp [hide, blankOut]
          rfl
        · cases opened
      · obtain ⟨before, inner, behind, leadMask, tailMask, shape, unclosed, place, start, masked, first, second⟩ :=
          ih _ deeper rfl
        refine ⟨read ++ before, inner, behind, shown ++ leadMask, tailMask, shape, unclosed, ?_, ?_, ?_, ?_, second⟩
        · rw [place, List.append_assoc]
        · rw [start, Text.byteLength_append, Nat.add_assoc]
        · rw [masked, List.append_assoc]
        · refine .step ?_ first
          rw [place] at token
          simpa only [List.append_assoc] using token

end MemberDoc.Source
