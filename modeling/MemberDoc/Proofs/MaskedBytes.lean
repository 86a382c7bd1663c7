import MemberDoc.Proofs.ByteScanner
import MemberDoc.Proofs.CommentText

set_option autoImplicit false

/-! Masking a source byte by byte. The scanner cannot fail on the bytes of a text: it cuts them between characters
only, and what it leaves are the bytes of the mask. -/

namespace MemberDoc.Source

/-- A text that is hidden as a whole and leaves the mode as it is, in front of another one. -/
structure Inside (mode : Mode) (content rest : Text) : Prop where
  mask_eq : mask mode (content ++ rest) = hide content ++ mask mode rest
  docComments_eq : ∀ offset,
    docComments offset mode (content ++ rest) = docComments (offset + Text.byteLength content) mode rest

theorem Inside.cons {mode : Mode} {read content rest : Text}
    (token : Token mode read (content ++ rest) (hide read) mode) (other : mode ≠ .code)
    (later : Inside mode content rest) : Inside mode (read ++ content) rest := by
  constructor
  · rw [List.append_assoc, (token.equations 0).1, later.mask_eq, hide_append, List.append_assoc]
  · intro offset
    have nothing : openedComment offset mode read (content ++ rest) = [] := if_neg fun opens => other opens.1
    rw [List.append_assoc, (token.equations offset).2.2, nothing, List.nil_append, later.docComments_eq,
      Text.byteLength_append, Nat.add_assoc]

theorem hide_single (c : Char) : hide [c] = blankOut c := by
  simp [hide]

private theorem inside_block (content rest : Text) (unclosed : Unclosed content) (apart : rest.head? ≠ some '/') :
    Inside .block content rest := by
  induction content with
  | nil => exact ⟨rfl, fun _ => rfl⟩
  | cons c content ih =>
      change Inside .block ([c] ++ content) rest
      refine .cons ?_ (fun same => by cases same) (ih unclosed.tail)
      rw [hide_single]
      refine .inBlock c _ fun star => ?_
      cases content with
      | nil => exact apart
      | cons d content => exact unclosed.not_slash star

private theorem inside_line (content rest : Text) (unbroken : '\n' ∉ content) : Inside .line content rest := by
  induction content with
  | nil => exact ⟨rfl, fun _ => rfl⟩
  | cons c content ih =>
      have stays : c ≠ '\n' := fun feed => unbroken (by rw [feed]; exact List.mem_cons_self)
      change Inside .line ([c] ++ content) rest
      refine .cons ?_ (fun same => by cases same) (ih fun member => unbroken (List.mem_cons_of_mem c member))
      rw [hide_single]
      exact .inLine c _ stays

private theorem inside_string (quote : Char) (content rest : Text) (stays : staysQuoted quote content = true) :
    Inside (.string quote) content rest := by
  fun_induction staysQuoted quote content with
  | case1 => exact ⟨rfl, fun _ => rfl⟩
  | case2 => cases stays
  | case3 c content ih =>
      change Inside (.string quote) (['\\', c] ++ content) rest
      refine .cons ?_ (fun same => by cases same) (ih stays)
      rw [hide_cons, hide_single]
      exact .escape quote c _
  | case4 c content notLast notEscape ih =>
      rw [Bool.and_eq_true, bne_iff_ne] at stays
      have plain := ne_escape c content notLast notEscape
      change Inside (.string quote) ([c] ++ content) rest
      refine .cons ?_ (fun same => by cases same) (ih stays.2)
      rw [hide_single]
      exact .inString quote c _ stays.1 fun escape => absurd escape plain

theorem staysQuoted_cons (quote c : Char) (text : Text) (plain : c ≠ '\\') :
    staysQuoted quote (c :: text) = (c != quote && staysQuoted quote text) := by
  cases text with
  | nil => simp [staysQuoted, plain]
  | cons d text => simp [staysQuoted, plain]

/-- What is behind the longest content of a string: its quote, or nothing but a backslash. -/
theorem exists_staysQuoted (quote : Char) (text : Text) :
    ∃ content rest, text = content ++ rest ∧ staysQuoted quote content = true ∧
      (rest = [] ∨ rest = ['\\'] ∨ ∃ behind, rest = quote :: behind) := by
  fun_induction staysQuoted quote text with
  | case1 => exact ⟨[], [], rfl, rfl, .inl rfl⟩
  | case2 => exact ⟨[], ['\\'], rfl, rfl, .inr (.inl rfl)⟩
  | case3 c text ih =>
      obtain ⟨content, rest, rfl, stays, behind⟩ := ih
      exact ⟨'\\' :: c :: content, rest, rfl, stays, behind⟩
  | case4 c text notLast notEscape ih =>
      have plain := ne_escape c text notLast notEscape
      by_cases closes : c = quote
      · subst closes
        exact ⟨[], c :: text, rfl, rfl, .inr (.inr ⟨text, rfl⟩)⟩
      · obtain ⟨content, rest, rfl, stays, behind⟩ := ih
        refine ⟨c :: content, rest, rfl, ?_, behind⟩
        rw [staysQuoted_cons quote c content plain, stays, Bool.and_true]
        exact bne_iff_ne.mpr closes

def DocComment.span (comment : DocComment) : Nat × Nat :=
  (comment.start, comment.stop)

/-- A segment that is a doc comment as a whole, or has none. -/
def noted (isDoc : Bool) (offset : Nat) (segment : Text) : List DocComment :=
  if isDoc then [⟨offset, segment⟩] else []

@[simp] theorem noted_false (offset : Nat) (segment : Text) : noted false offset segment = [] :=
  rfl

/-- A segment at the start of a text in code, with its mask, that the scanner of bytes goes through in the same way,
whatever it has read before. -/
structure Segment (segment rest shown : Text) (isDoc : Bool) : Prop where
  mask_eq : mask .code (segment ++ rest) = shown ++ mask .code rest
  docComments_eq : ∀ offset, docComments offset .code (segment ++ rest) =
    noted isDoc offset segment ++ docComments (offset + Text.byteLength segment) .code rest
  isComment : isDoc = true → IsComment segment
  runs : ∀ (before hidden : Text) (comments : List (Nat × Nat)) (final : ByteMask),
    Text.byteLength hidden = Text.byteLength before →
    ByteMask.Runs (Text.bytes (before ++ (segment ++ rest)))
      ⟨Text.bytes (hidden ++ (shown ++ rest)),
        comments ++ (noted isDoc (Text.byteLength before) segment).map DocComment.span⟩
      (Text.byteLength before + Text.byteLength segment) final →
    ByteMask.Runs (Text.bytes (before ++ (segment ++ rest)))
      ⟨Text.bytes (hidden ++ (segment ++ rest)), comments⟩ (Text.byteLength before) final

structure IsPlain (c : Char) (rest : Text) : Prop where
  division : c = '/' → rest.head? ≠ some '*' ∧ rest.head? ≠ some '/'
  bracket : c = '#' → rest.head? = some '['
  unquoted : isQuote c = false

theorem IsPlain.round_eq {c : Char} {rest : Text} (plain : IsPlain c rest) (small : c.toNat < 0x80)
    (source : List UInt8) (state : ByteMask) (place : Nat) :
    ByteMask.round? source state place c.toUInt8 (Text.bytes rest) = some (state, place + 1) := by
  have notQuote := plain.unquoted
  simp only [isQuote, Bool.or_eq_false_iff, beq_eq_false_iff_ne] at notQuote
  have same (d : Char) (also : d.toNat < 0x80) := Text.toUInt8_eq_iff c d small also
  have next (d : Char) (also : d.toNat < 0x80) := Text.head_bytes_iff rest d also
  unfold ByteMask.round?
  rw [if_neg, if_neg, if_neg]
  all_goals
    simp only [Bool.and_eq_true, Bool.or_eq_true, decide_eq_true_eq, ne_eq, same '/' (by decide), same '#' (by decide),
      same '\x22' (by decide), same '\x27' (by decide), next '*' (by decide), next '/' (by decide),
      next '[' (by decide)]
  · rintro (quote | quote)
    · exact notQuote.1 quote
    · exact notQuote.2 quote
  · rintro (⟨slash, twice⟩ | ⟨hash, noBracket⟩)
    · exact (plain.division slash).2 twice
    · exact noBracket (plain.bracket hash)
  · rintro ⟨slash, star⟩
    exact (plain.division slash).1 star

private theorem segment_plain (c : Char) (rest : Text) (plain : IsPlain c rest) : Segment [c] rest [c] false := by
  have equations : mask .code (c :: rest) = c :: mask .code rest ∧
      ∀ offset, docComments offset .code (c :: rest) = docComments (offset + c.utf8Size) .code rest := by
    by_cases hash : c = '#'
    · obtain ⟨tail, rfl⟩ := List.head?_eq_some_iff.mp (plain.bracket hash)
      subst hash
      have bracket := fun offset =>
        (Token.plain '[' tail (by decide) (by decide) fun slash => absurd slash (by decide)).equations offset
      refine ⟨?_, fun offset => ?_⟩
      · exact congrArg (List.cons '#') (bracket 0).1.symm
      · exact (bracket (offset + 1)).2.2.symm
    · have token := Token.plain c rest hash plain.unquoted plain.division
      refine ⟨(token.equations 0).1, fun offset => ?_⟩
      have found := (token.equations offset).2.2
      have nothing : openedComment offset .code [c] rest = [] := if_neg fun opens => by cases opens.2
      rw [nothing] at found
      exact found
  refine ⟨equations.1, equations.2, nofun, fun before hidden comments final _ later => ?_⟩
  rw [noted_false, List.map_nil, List.append_nil] at later
  have here : (Text.bytes (before ++ ([c] ++ rest))).drop (Text.byteLength before) =
      String.utf8EncodeChar c ++ Text.bytes rest := Text.drop_bytes before (c :: rest)
  have size : Text.byteLength [c] = (String.utf8EncodeChar c).length := by
    rw [String.length_utf8EncodeChar]
    rfl
  by_cases small : c.toNat < 0x80
  · rw [Text.bytes_ascii c small] at here size
    rw [size] at later
    exact later.step here (plain.round_eq small _ _ _) (Nat.lt_succ_self _)
  · rw [size] at later
    exact later.skip _ _ _ (fun byte member => Text.high_of_wide c small byte member) here

private theorem openedComment_closed (offset : Nat) (content rest : Text) (unclosed : Unclosed content) :
    openedComment offset .code ['/', '*'] (content ++ ['*', '/'] ++ rest) =
      noted (decide (content.head? = some '*')) offset (['/', '*'] ++ (content ++ ['*', '/'])) := by
  rw [openedComment, if_pos ⟨rfl, rfl⟩, docCommentText?, splitFirst_closing content rest unclosed]
  cases content with
  | nil => rfl
  | cons c content =>
      by_cases star : c = '*'
      · subst star
        rfl
      · have other : (c :: content).head? ≠ some '*' := fun first => star (Option.some.inj first)
        rw [decide_eq_false other, noted_false]
        simp [star]

theorem bytesBefore_closing (text : Text) : Text.bytesBefore? (Text.bytes ['*', '/']) (Text.bytes text) =
    (Text.splitFirst? ['*', '/'] text).map fun parts => Text.byteLength parts.1 :=
  Text.bytesBefore_bytes ['*', '/'] text '*' rfl (Text.forall_of_all (by decide))

theorem bytesFrom_opening (before inner : Text) :
    Text.bytesFrom? (Text.bytes (before ++ (['/', '*'] ++ inner))) (Text.byteLength before + 2) =
      some (Text.bytes inner) := by
  have cut := Text.bytesFrom_append (before ++ ['/', '*']) inner
  rw [List.append_assoc, Text.byteLength_append] at cut
  exact cut

private theorem blockStop_closed (before content rest : Text) (unclosed : Unclosed content) :
    ByteMask.blockStop? (Text.bytes (before ++ (['/', '*'] ++ (content ++ ['*', '/']) ++ rest)))
        (Text.byteLength before) =
      some (Text.byteLength before + Text.byteLength (['/', '*'] ++ (content ++ ['*', '/'])),
        decide (content.head? = some '*')) := by
  have size : Text.byteLength (['/', '*'] ++ (content ++ ['*', '/'])) = 2 + Text.byteLength content + 2 := by
    rw [Text.byteLength_append, Text.byteLength_append, ← Nat.add_assoc]
    rfl
  have isDoc : ((Text.bytes (content ++ ['*', '/'] ++ rest)).head? = some '*'.toUInt8 ∧
      5 ≤ Text.byteLength before + 2 + Text.byteLength content + 2 - Text.byteLength before) ↔
        content.head? = some '*' := by
    rw [Text.head_bytes_iff _ '*' (by decide)]
    cases content with
    | nil => exact iff_of_false (fun doc => absurd doc.2 (by simp only [Text.byteLength]; omega)) nofun
    | cons c content =>
        have positive := Text.byteLength_pos c content
        exact ⟨fun doc => doc.1, fun first => ⟨first, by omega⟩⟩
  unfold ByteMask.blockStop?
  rw [List.append_assoc ['/', '*'], bytesFrom_opening, Option.bind_eq_bind, Option.bind_some, bytesBefore_closing,
    splitFirst_closing content rest unclosed, ← decide_eq_decide.mpr isDoc, Bool.decide_and, size,
    ← Nat.add_assoc, ← Nat.add_assoc]
  rfl

private theorem blockStop_open (before content : Text) (unclosed : Unclosed content) :
    ByteMask.blockStop? (Text.bytes (before ++ (['/', '*'] ++ content ++ []))) (Text.byteLength before) =
      some (Text.byteLength before + Text.byteLength (['/', '*'] ++ content), false) := by
  unfold ByteMask.blockStop?
  rw [List.append_nil, bytesFrom_opening, Option.bind_eq_bind, Option.bind_some, bytesBefore_closing,
    Text.splitFirst_absent _ _ unclosed, Text.length_bytes, Text.byteLength_append]
  rfl

theorem runs_block (before hidden inner rest : Text) (comments : List (Nat × Nat)) (isDoc : Bool) (final : ByteMask)
    (aligned : Text.byteLength hidden = Text.byteLength before)
    (stop : ByteMask.blockStop? (Text.bytes (before ++ (['/', '*'] ++ inner ++ rest))) (Text.byteLength before) =
      some (Text.byteLength before + Text.byteLength (['/', '*'] ++ inner), isDoc))
    (later : ByteMask.Runs (Text.bytes (before ++ (['/', '*'] ++ inner ++ rest)))
      ⟨Text.bytes (hidden ++ (hide (['/', '*'] ++ inner) ++ rest)),
        comments ++ (noted isDoc (Text.byteLength before) (['/', '*'] ++ inner)).map DocComment.span⟩
      (Text.byteLength before + Text.byteLength (['/', '*'] ++ inner)) final) :
    ByteMask.Runs (Text.bytes (before ++ (['/', '*'] ++ inner ++ rest)))
      ⟨Text.bytes (hidden ++ (['/', '*'] ++ inner ++ rest)), comments⟩ (Text.byteLength before) final := by
  have here : (Text.bytes (before ++ (['/', '*'] ++ inner ++ rest))).drop (Text.byteLength before) =
      '/'.toUInt8 :: '*'.toUInt8 :: Text.bytes (inner ++ rest) := by
    rw [Text.drop_bytes, List.append_assoc, Text.bytes_append]
    rfl
  have positive := Text.byteLength_pos '/' ('*' :: inner)
  refine later.step here ?_ (Nat.lt_add_of_pos_right positive)
  rw [ByteMask.round?, if_pos (by rfl), stop]
  cases isDoc with
  | false =>
      rw [noted_false, List.map_nil, List.append_nil]
      exact ByteMask.pass_hidden before hidden _ rest comments _ aligned
  | true => exact ByteMask.pass_hidden before hidden _ rest _ _ aligned

private theorem segment_closedBlock (content rest : Text) (unclosed : Unclosed content) :
    Segment (['/', '*'] ++ (content ++ ['*', '/'])) rest (hide (['/', '*'] ++ (content ++ ['*', '/'])))
      (decide (content.head? = some '*')) := by
  refine ⟨(reads_comment content rest unclosed).mask_eq, fun offset => ?_, fun star => ?_, ?_⟩
  · have opened := ((Token.openBlock (content ++ ['*', '/'] ++ rest)).equations offset).2.2
    rw [List.append_assoc, opened, docComments_hidden _ _ _ unclosed, openedComment_closed _ _ _ unclosed,
      Text.byteLength_append ['/', '*'], Nat.add_assoc]
  · obtain ⟨inner, rfl⟩ := List.head?_eq_some_iff.mp (of_decide_eq_true star)
    exact ⟨inner, rfl, unclosed⟩
  · intro before hidden comments final aligned later
    exact runs_block before hidden _ rest comments _ final aligned (blockStop_closed before content rest unclosed) later

private theorem segment_openBlock (content : Text) (unclosed : Unclosed content) :
    Segment (['/', '*'] ++ content) [] (hide (['/', '*'] ++ content)) false := by
  have inside := inside_block content [] unclosed nofun
  refine ⟨?_, fun offset => ?_, nofun, ?_⟩
  · have opened := ((Token.openBlock (content ++ [])).equations 0).1
    rw [List.append_assoc, opened, inside.mask_eq, hide_append, List.append_assoc]
    rfl
  · have opened := ((Token.openBlock (content ++ [])).equations offset).2.2
    have nothing : openedComment offset .code ['/', '*'] (content ++ []) = [] := by
      rw [openedComment, if_pos ⟨rfl, rfl⟩, docCommentText?, List.append_nil, Text.splitFirst_absent _ _ unclosed]
      rfl
    rw [List.append_assoc, opened, nothing, inside.docComments_eq]
    rfl
  · intro before hidden comments final aligned later
    have stop := blockStop_open before content unclosed
    exact runs_block before hidden content [] comments false final aligned stop later

def EndsLine (rest : Text) : Prop :=
  rest = [] ∨ ∃ tail, rest = '\n' :: tail

private theorem line_eq_code (rest : Text) (ends : EndsLine rest) :
    mask .line rest = mask .code rest ∧ ∀ offset, docComments offset .line rest = docComments offset .code rest := by
  rcases ends with rfl | ⟨tail, rfl⟩
  · exact ⟨rfl, fun _ => rfl⟩
  · have inLine := fun offset => (Token.closeLine tail).equations offset
    have inCode := fun offset =>
      (Token.plain '\n' tail (by decide) (by decide) fun slash => absurd slash (by decide)).equations offset
    exact ⟨(inLine 0).1.trans (inCode 0).1.symm, fun offset => (inLine offset).2.2.trans (inCode offset).2.2.symm⟩

theorem lineStop_eq (before line rest : Text) (unbroken : '\n' ∉ line) (ends : EndsLine rest) :
    ByteMask.lineStop? (Text.bytes (before ++ (line ++ rest))) (Text.byteLength before) =
      some (Text.byteLength before + Text.byteLength line) := by
  have found := Text.bytesBefore_bytes ['\n'] (line ++ rest) '\n' rfl (Text.forall_of_all (by decide))
  unfold ByteMask.lineStop?
  rw [Text.bytesFrom_append, Option.bind_eq_bind, Option.bind_some, found]
  rcases ends with rfl | ⟨tail, rfl⟩
  · have absent : ¬ ['\n'] <:+: line ++ [] := by
      rw [List.append_nil]
      exact fun inside => unbroken (inside.subset List.mem_cons_self)
    rw [Text.splitFirst_absent _ _ absent, Text.length_bytes, Text.byteLength_append, List.append_nil]
    rfl
  · rw [(Text.splitFirst_char '\n' line tail).mpr unbroken]
    rfl

/-- What opens a line comment: two slashes, or a number sign that opens no attribute. -/
inductive OpensLine : Text → Text → Prop where
  | slashes (rest : Text) : OpensLine ['/', '/'] rest
  | hash (rest : Text) (comment : rest.head? ≠ some '[') : OpensLine ['#'] rest

private theorem OpensLine.token {opening rest : Text} (opens : OpensLine opening rest) :
    Token .code opening rest (hide opening) .line ∧ '\n' ∉ opening := by
  cases opens with
  | slashes => exact ⟨.openLine rest, by decide⟩
  | hash _ comment => exact ⟨.openHash rest comment, by decide⟩

theorem OpensLine.round_eq {opening rest : Text} (opens : OpensLine opening rest) :
    ∃ byte tail, Text.bytes (opening ++ rest) = byte :: tail ∧ ∀ source state place,
      ByteMask.round? source state place byte tail =
        (ByteMask.lineStop? source place).bind fun stop => state.pass? place stop stop := by
  cases opens with
  | slashes => exact ⟨'/'.toUInt8, '/'.toUInt8 :: Text.bytes rest, rfl, fun _ _ _ => rfl⟩
  | hash _ comment =>
      refine ⟨'#'.toUInt8, Text.bytes rest, rfl, fun source state place => ?_⟩
      have noBracket : (Text.bytes rest).head? ≠ some '['.toUInt8 := fun first =>
        comment ((Text.head_bytes_iff rest '[' (by decide)).mp first)
      have notSlash : '#'.toUInt8 ≠ '/'.toUInt8 := by decide
      rw [ByteMask.round?, if_neg, if_pos]
      · simp [noBracket]
      · simp [notSlash]

private theorem segment_line (opening content rest : Text) (opens : OpensLine opening (content ++ rest))
    (unbroken : '\n' ∉ content) (ends : EndsLine rest) :
    Segment (opening ++ content) rest (hide (opening ++ content)) false := by
  have inside := inside_line content rest unbroken
  obtain ⟨token, solid⟩ := opens.token
  obtain ⟨masked, found⟩ := line_eq_code rest ends
  refine ⟨?_, fun offset => ?_, nofun, fun before hidden comments final aligned later => ?_⟩
  · rw [List.append_assoc, (token.equations 0).1, inside.mask_eq, masked, hide_append, List.append_assoc]
  · have nothing : openedComment offset .code opening (content ++ rest) = [] := by
      cases opens <;> rfl
    rw [List.append_assoc, (token.equations offset).2.2, nothing, inside.docComments_eq, found, Text.byteLength_append,
      Nat.add_assoc]
    rfl
  · obtain ⟨byte, tail, encoded, made⟩ := opens.round_eq
    rw [← List.append_assoc] at encoded
    have whole : '\n' ∉ opening ++ content := fun member =>
      (List.mem_append.mp member).elim solid unbroken
    have positive : 0 < Text.byteLength (opening ++ content) := by
      cases opens <;> exact Text.byteLength_pos _ _
    rw [noted_false, List.map_nil, List.append_nil] at later
    refine later.step ((Text.drop_bytes before _).trans encoded) ?_ (Nat.lt_add_of_pos_right positive)
    rw [made, lineStop_eq before _ rest whole ends]
    exact ByteMask.pass_hidden before hidden _ rest comments _ aligned

private theorem round_quote (quote : Char) (isQuoted : isQuote quote = true) (source rest : List UInt8)
    (state : ByteMask) (place stop : Nat)
    (found : min (ByteMask.closingQuote quote.toUInt8 (place + 1) rest) source.length = stop) :
    ByteMask.round? source state place quote.toUInt8 rest = state.pass? (place + 1) stop (stop + 1) := by
  subst found
  rcases ByteMask.quote_eq quote isQuoted with rfl | rfl <;> rfl

private theorem pass_content (before hidden content rest : Text) (quote : Char) (isQuoted : isQuote quote = true)
    (comments : List (Nat × Nat)) (next : Nat) (aligned : Text.byteLength hidden = Text.byteLength before) :
    (ByteMask.mk (Text.bytes (hidden ++ ([quote] ++ (content ++ rest)))) comments).pass? (Text.byteLength before + 1)
        (Text.byteLength before + 1 + Text.byteLength content) next =
      some (⟨Text.bytes (hidden ++ ([quote] ++ (hide content ++ rest))), comments⟩, next) := by
  have behindQuote : Text.byteLength (hidden ++ [quote]) = Text.byteLength (before ++ [quote]) := by
    simp [aligned]
  have passed := ByteMask.pass_hidden (before ++ [quote]) (hidden ++ [quote]) content rest comments next behindQuote
  rw [Text.byteLength_append, ByteMask.byteLength_quote quote isQuoted, List.append_assoc, List.append_assoc] at passed
  exact passed

theorem runs_string (before hidden content rest : Text) (quote : Char) (isQuoted : isQuote quote = true)
    (comments : List (Nat × Nat)) (final : ByteMask) (aligned : Text.byteLength hidden = Text.byteLength before)
    (stop : min (ByteMask.closingQuote quote.toUInt8 (Text.byteLength before + 1) (Text.bytes (content ++ rest)))
        (Text.bytes (before ++ ([quote] ++ (content ++ rest)))).length =
      Text.byteLength before + 1 + Text.byteLength content)
    (later : ByteMask.Runs (Text.bytes (before ++ ([quote] ++ (content ++ rest))))
      ⟨Text.bytes (hidden ++ ([quote] ++ (hide content ++ rest))), comments⟩
      (Text.byteLength before + 1 + Text.byteLength content + 1) final) :
    ByteMask.Runs (Text.bytes (before ++ ([quote] ++ (content ++ rest))))
      ⟨Text.bytes (hidden ++ ([quote] ++ (content ++ rest))), comments⟩ (Text.byteLength before) final := by
  have here : (Text.bytes (before ++ ([quote] ++ (content ++ rest)))).drop (Text.byteLength before) =
      quote.toUInt8 :: Text.bytes (content ++ rest) := by
    rw [Text.drop_bytes]
    exact Text.bytes_small quote (ByteMask.quote_small quote isQuoted).1 _
  refine later.step here ?_ (by omega)
  rw [round_quote quote isQuoted _ _ _ _ _ stop]
  exact pass_content before hidden content rest quote isQuoted comments _ aligned

theorem quoted_equations (quote : Char) (isQuoted : isQuote quote = true) (content rest : Text)
    (stays : staysQuoted quote content = true) :
    mask .code ([quote] ++ (content ++ rest)) = [quote] ++ (hide content ++ mask (.string quote) rest) ∧
      ∀ offset, docComments offset .code ([quote] ++ (content ++ rest)) =
        docComments (offset + Text.byteLength [quote] + Text.byteLength content) (.string quote) rest := by
  have inside := inside_string quote content rest stays
  have opened := fun offset => (Token.openString quote (content ++ rest) isQuoted).equations offset
  refine ⟨?_, fun offset => ?_⟩
  · rw [(opened 0).1, inside.mask_eq]
  · have nothing : openedComment offset .code [quote] (content ++ rest) = [] := if_neg fun opens => by cases opens.2
    rw [(opened offset).2.2, nothing, List.nil_append, inside.docComments_eq]

private theorem segment_closedString (quote : Char) (isQuoted : isQuote quote = true) (content rest : Text)
    (stays : staysQuoted quote content = true) :
    Segment ([quote] ++ (content ++ [quote])) rest ([quote] ++ (hide content ++ [quote])) false := by
  obtain ⟨masked, found⟩ := quoted_equations quote isQuoted content ([quote] ++ rest) stays
  have closed := fun offset => (Token.closeString quote rest isQuoted).equations offset
  refine ⟨?_, fun offset => ?_, nofun, fun before hidden comments final aligned later => ?_⟩
  · rw [List.append_assoc, List.append_assoc, masked, (closed 0).1, List.append_assoc, List.append_assoc]
  · rw [List.append_assoc, List.append_assoc, found, (closed _).2.2, Text.byteLength_append, Text.byteLength_append,
      ← Nat.add_assoc, ← Nat.add_assoc]
    rfl
  · simp only [List.append_assoc, noted_false, List.map_nil, List.append_nil, Text.byteLength_append,
      ByteMask.byteLength_quote quote isQuoted, ← Nat.add_assoc] at later ⊢
    refine runs_string before hidden content ([quote] ++ rest) quote isQuoted comments final aligned ?_ later
    have small := (ByteMask.quote_small quote isQuoted).1
    have encoded : Text.bytes ([quote] ++ rest) = quote.toUInt8 :: Text.bytes rest := Text.bytes_small quote small rest
    rw [ByteMask.closingQuote_content quote isQuoted content _ _ stays, encoded, ByteMask.closingQuote_self,
      Text.length_bytes]
    grind [ByteMask.byteLength_quote quote isQuoted]

private theorem segment_openString (quote : Char) (isQuoted : isQuote quote = true) (content tail : Text)
    (stays : staysQuoted quote content = true) (ends : tail = [] ∨ tail = ['\\']) :
    Segment ([quote] ++ (content ++ tail)) [] ([quote] ++ hide (content ++ tail)) false := by
  obtain ⟨masked, found⟩ := quoted_equations quote isQuoted content tail stays
  obtain ⟨tailMask, noComment⟩ : mask (.string quote) tail = hide tail ∧
      ∀ offset, docComments offset (.string quote) tail = [] := by
    rcases ends with rfl | rfl
    · exact ⟨rfl, fun _ => rfl⟩
    · have other := (ByteMask.quote_small quote isQuoted).2.symm
      have last := fun offset => (Token.inString quote '\\' [] other fun _ => rfl).equations offset
      exact ⟨(last 0).1, fun offset => (last offset).2.2⟩
  refine ⟨?_, fun offset => ?_, nofun, fun before hidden comments final aligned later => ?_⟩
  · rw [List.append_nil, masked, tailMask, hide_append]
    exact (List.append_nil _).symm
  · rw [List.append_nil, found, noComment]
    rfl
  · have beyond : Text.byteLength before + 1 + Text.byteLength content + Text.byteLength tail ≤
        ByteMask.closingQuote quote.toUInt8 (Text.byteLength before + 1) (Text.bytes (content ++ tail)) := by
      rw [ByteMask.closingQuote_content quote isQuoted content _ _ stays]
      rcases ends with rfl | rfl
      · exact Nat.le_refl _
      · rw [ByteMask.closingQuote_last quote isQuoted]
        exact Nat.add_le_add_left (by decide) _
    have size : (Text.bytes (before ++ ([quote] ++ (content ++ tail)))).length =
        Text.byteLength before + 1 + Text.byteLength (content ++ tail) := by
      grind [ByteMask.byteLength_quote quote isQuoted]
    have stop := Text.byteLength_append content tail
    simp only [List.append_nil, noted_false, List.map_nil, Text.byteLength_append [quote],
      ByteMask.byteLength_quote quote isQuoted, ← Nat.add_assoc] at later ⊢
    rw [ByteMask.runs_end _ _ _ _ (by omega)] at later
    have string := runs_string before hidden (content ++ tail) [] quote isQuoted comments final aligned
    simp only [List.append_nil] at string
    refine string (by omega) ?_
    rw [ByteMask.runs_end _ _ _ _ (by omega)]
    exact later

private theorem exists_unclosed (text : Text) :
    Unclosed text ∨ ∃ content rest, text = content ++ ['*', '/'] ++ rest ∧ Unclosed content := by
  by_cases unclosed : Unclosed text
  · exact .inl unclosed
  · obtain ⟨lead, tail, whole⟩ := Decidable.not_not.mp unclosed
    obtain ⟨⟨content, rest⟩, found⟩ := Text.splitFirst_isSome ['*', '/'] lead tail
    rw [whole] at found
    exact .inr ⟨content, rest, Text.splitFirst_append _ _ _ _ found, unclosed_of_splitFirst _ _ _ found⟩

private theorem exists_unbroken (text : Text) :
    ∃ content rest, text = content ++ rest ∧ '\n' ∉ content ∧ EndsLine rest := by
  induction text with
  | nil => exact ⟨[], [], rfl, List.not_mem_nil, .inl rfl⟩
  | cons c text ih =>
      by_cases feed : c = '\n'
      · subst feed
        exact ⟨[], '\n' :: text, rfl, List.not_mem_nil, .inr ⟨text, rfl⟩⟩
      · obtain ⟨content, rest, rfl, unbroken, ends⟩ := ih
        refine ⟨c :: content, rest, rfl, fun member => ?_, ends⟩
        rcases List.mem_cons.mp member with here | later
        · exact feed here.symm
        · exact unbroken later

private theorem exists_segment (text : Text) (nonempty : text ≠ []) :
    ∃ segment rest shown isDoc, text = segment ++ rest ∧ segment ≠ [] ∧ Segment segment rest shown isDoc := by
  obtain ⟨c, text, rfl⟩ := List.exists_cons_of_ne_nil nonempty
  have line (opening tail : Text) (opens : OpensLine opening tail) (whole : c :: text = opening ++ tail) :
      ∃ segment rest shown isDoc, c :: text = segment ++ rest ∧ segment ≠ [] ∧ Segment segment rest shown isDoc := by
    obtain ⟨content, rest, rfl, unbroken, ends⟩ := exists_unbroken tail
    refine ⟨opening ++ content, rest, _, _, by rw [whole, List.append_assoc], ?_,
      segment_line opening content rest opens unbroken ends⟩
    cases opens <;> exact List.cons_ne_nil _ _
  by_cases block : c = '/' ∧ text.head? = some '*'
  · obtain ⟨rfl, star⟩ := block
    obtain ⟨inner, rfl⟩ := List.head?_eq_some_iff.mp star
    rcases exists_unclosed inner with unclosed | ⟨content, rest, rfl, unclosed⟩
    · exact ⟨['/', '*'] ++ inner, [], _, _, (List.append_nil _).symm, List.cons_ne_nil _ _,
        segment_openBlock inner unclosed⟩
    · exact ⟨['/', '*'] ++ (content ++ ['*', '/']), rest, _, _, rfl, List.cons_ne_nil _ _,
        segment_closedBlock content rest unclosed⟩
  · by_cases slashes : c = '/' ∧ text.head? = some '/'
    · obtain ⟨rfl, twice⟩ := slashes
      obtain ⟨inner, rfl⟩ := List.head?_eq_some_iff.mp twice
      exact line ['/', '/'] inner (.slashes inner) rfl
    · by_cases hash : c = '#' ∧ text.head? ≠ some '['
      · obtain ⟨rfl, comment⟩ := hash
        exact line ['#'] text (.hash text comment) rfl
      · cases isQuoted : isQuote c with
        | true =>
            obtain ⟨content, rest, rfl, stays, ends⟩ := exists_staysQuoted c text
            rcases ends with rfl | rfl | ⟨behind, rfl⟩
            · exact ⟨[c] ++ (content ++ []), [], _, _, (List.append_nil _).symm, List.cons_ne_nil _ _,
                segment_openString c isQuoted content [] stays (.inl rfl)⟩
            · exact ⟨[c] ++ (content ++ ['\\']), [], _, _, (List.append_nil _).symm, List.cons_ne_nil _ _,
                segment_openString c isQuoted content ['\\'] stays (.inr rfl)⟩
            · exact ⟨[c] ++ (content ++ [c]), behind, _, _, by simp, List.cons_ne_nil _ _,
                segment_closedString c isQuoted content behind stays⟩
        | false =>
            have plain : IsPlain c text :=
              { division := fun slash => ⟨fun star => block ⟨slash, star⟩, fun twice => slashes ⟨slash, twice⟩⟩
                bracket := fun sign => Decidable.byContradiction fun comment => hash ⟨sign, comment⟩
                unquoted := isQuoted }
            exact ⟨[c], text, _, _, rfl, List.cons_ne_nil _ _, segment_plain c text plain⟩

/-- What holds of a text if it holds of the rest behind each segment holds of every text. -/
theorem segment_induction {holds : Text → Prop} (empty : holds [])
    (step : ∀ segment rest shown isDoc, Segment segment rest shown isDoc → holds rest → holds (segment ++ rest))
    (text : Text) : holds text := by
  generalize size : text.length = count
  induction count using Nat.strongRecOn generalizing text with
  | ind count ih =>
      by_cases nothing : text = []
      · rw [nothing]
        exact empty
      · obtain ⟨segment, rest, shown, isDoc, rfl, taken, isSegment⟩ := exists_segment text nothing
        have positive := List.length_pos_iff.mpr taken
        rw [List.length_append] at size
        exact step segment rest shown isDoc isSegment (ih rest.length (by omega) rest rfl)

private theorem Segment.byteLength_shown {segment rest shown : Text} {isDoc : Bool}
    (isSegment : Segment segment rest shown isDoc) : Text.byteLength shown = Text.byteLength segment := by
  have sizes := byteLength_mask (segment ++ rest)
  grind [isSegment.mask_eq]

/-- The rounds leave the mask of what they go through and note its doc comments. -/
theorem runs_mask (text before hidden : Text) (comments : List (Nat × Nat))
    (aligned : Text.byteLength hidden = Text.byteLength before) :
    ByteMask.Runs (Text.bytes (before ++ text)) ⟨Text.bytes (hidden ++ text), comments⟩ (Text.byteLength before)
      ⟨Text.bytes (hidden ++ mask .code text),
        comments ++ (docComments (Text.byteLength before) .code text).map DocComment.span⟩ := by
  induction text using segment_induction generalizing before hidden comments with
  | empty =>
      rw [ByteMask.runs_end _ _ _ _ (by simp)]
      exact congrArg (ByteMask.mk _) (List.append_nil comments).symm
  | step segment rest shown isDoc isSegment ih =>
      refine isSegment.runs before hidden comments _ aligned ?_
      have later := ih (before ++ segment) (hidden ++ shown)
        (comments ++ (noted isDoc (Text.byteLength before) segment).map DocComment.span)
        (by simp [aligned, isSegment.byteLength_shown])
      rw [Text.byteLength_append] at later
      rw [isSegment.mask_eq, isSegment.docComments_eq, List.map_append]
      simp only [List.append_assoc] at later ⊢
      exact later

theorem maskBytes_eq (source : Text) :
    maskBytes? (Text.bytes source) = some (mask .code source, (docComments 0 .code source).map DocComment.span) := by
  have run : ByteMask.rounds? (Text.bytes source) ((Text.bytes source).length + 1) ⟨Text.bytes source, []⟩ 0 =
      some ⟨Text.bytes (mask .code source), (docComments 0 .code source).map DocComment.span⟩ :=
    runs_mask source [] [] [] rfl _ (Nat.lt_succ_of_le (Nat.sub_le _ _))
  rw [maskBytes?, run, Option.bind_eq_bind, Option.bind_some, Text.decode_bytes]
  rfl

def Keeps (masked source : List UInt8) : Prop :=
  ∀ place : Nat, masked[place]? = source[place]? ∨ masked[place]? = source[place]?.map ByteMask.blankByte

private theorem Token.keeps {mode next : Mode} {read rest shown : Text} (token : Token mode read rest shown next) :
    Keeps (Text.bytes shown) (Text.bytes read) := by
  have either : shown = read ∨ shown = hide read := by
    cases token with
    | openAttribute | openString | plain | closeLine | closeString => exact .inl rfl
    | openBlock | openLine | openHash | closeBlock => exact .inr rfl
    | inBlock c | inLine c | inString _ c => exact .inr (hide_single c).symm
    | escape _ c => exact .inr (by rw [hide_cons, hide_single]; rfl)
  intro place
  rcases either with same | hidden
  · exact .inl (by rw [same])
  · exact .inr (by rw [hidden, ← ByteMask.map_blankByte, List.getElem?_map])

private theorem Reads.keeps {mode next : Mode} {text rest shown : Text} (reads : Reads mode text rest shown next) :
    Keeps (Text.bytes shown) (Text.bytes text) := by
  induction reads with
  | done => exact fun _ => .inl rfl
  | step token later ih =>
      intro place
      have sizes := token.byteLength_shown
      rw [← Text.length_bytes, ← Text.length_bytes] at sizes
      rw [Text.bytes_append, Text.bytes_append, List.getElem?_append, List.getElem?_append, sizes]
      split
      · exact token.keeps place
      · exact ih _

private theorem pairwise_docComments (text : Text) (offset : Nat) :
    (docComments offset .code text).Pairwise fun first second => first.stop ≤ second.start := by
  induction text using segment_induction generalizing offset with
  | empty => exact .nil
  | step segment rest shown isDoc isSegment ih =>
      rw [isSegment.docComments_eq, List.pairwise_append]
      refine ⟨?_, ih _, fun first noticed second later => ?_⟩
      · unfold noted
        split
        · exact List.pairwise_singleton _ _
        · exact .nil
      · have bound := (start_of_mem_docComments _ .code True.intro rest second later).1
        unfold noted at noticed
        split at noticed
        · rw [List.mem_singleton] at noticed
          rw [noticed]
          exact bound
        · cases noticed

private theorem cut_docComment (text before : Text) (comment : DocComment)
    (member : comment ∈ docComments (Text.byteLength before) .code text) :
    IsComment comment.text ∧
      ∃ lead behind, before ++ text = lead ++ comment.text ++ behind ∧ Text.byteLength lead = comment.start := by
  induction text using segment_induction generalizing before with
  | empty => cases member
  | step segment rest shown isDoc isSegment ih =>
      rw [isSegment.docComments_eq, ← Text.byteLength_append, List.mem_append] at member
      rcases member with here | later
      · unfold noted at here
        split at here
        · rename_i doc
          rw [List.mem_singleton] at here
          rw [here]
          exact ⟨isSegment.isComment doc, before, rest, (List.append_assoc _ _ _).symm, rfl⟩
        · cases here
      · rw [← List.append_assoc]
        exact ih (before ++ segment) later

/-- The outward shape of a doc comment: it ends where it is closed first, and its end is none of its opening. -/
structure HasDocShape (text : Text) : Prop where
  opens : ['/', '*', '*'] <+: text
  closes : ['*', '/'] <:+ text
  first : ∀ lead rest, text = ['/', '*'] ++ lead ++ ['*', '/'] ++ rest → rest = []
  large : 5 ≤ Text.byteLength text

private theorem IsComment.hasDocShape {text : Text} (isComment : IsComment text) : HasDocShape text := by
  obtain ⟨inner, rfl, unclosed⟩ := isComment
  refine ⟨⟨inner ++ ['*', '/'], rfl⟩, ⟨['/', '*'] ++ '*' :: inner, by simp⟩, fun lead rest whole => ?_, ?_⟩
  · simp only [List.append_assoc] at whole
    have inside := List.append_cancel_left whole
    have closing := splitFirst_closing ('*' :: inner) [] unclosed
    rw [List.append_nil] at closing
    have bound := Text.splitFirst_first _ _ _ _ closing lead rest (by rw [inside, List.append_assoc])
    have sizes := congrArg List.length inside
    simp only [List.length_append] at sizes
    exact List.length_eq_zero_iff.mp (by omega)
  · have positive := Text.byteLength_pos '*' inner
    have opening : Text.byteLength ['/', '*'] = 2 := rfl
    have closing : Text.byteLength ['*', '/'] = 2 := rfl
    grind

/-- A mask of a source that has all its bytes at their places, and doc comments one after the other. -/
structure IsMask (source masked : Text) (comments : List DocComment) : Prop where
  length : (Text.bytes masked).length = (Text.bytes source).length
  kept : ∀ (place : Nat) (byte : UInt8), (Text.bytes source)[place]? = some byte →
    (Text.bytes masked)[place]? = some byte ∨
      byte ≠ '\n'.toUInt8 ∧ (Text.bytes masked)[place]? = some ' '.toUInt8
  ordered : comments.Pairwise fun first second => first.stop ≤ second.start
  cut : ∀ comment ∈ comments,
    ∃ lead behind, source = lead ++ comment.text ++ behind ∧ Text.byteLength lead = comment.start
  shaped : ∀ comment ∈ comments, HasDocShape comment.text

/-- No source makes the scanner of bytes fail, and what it finds is a mask with its doc comments. -/
theorem maskBytes_isMask (source : Text) :
    maskBytes? (Text.bytes source) = some (mask .code source, (docComments 0 .code source).map DocComment.span) ∧
      IsMask source (mask .code source) (docComments 0 .code source) := by
  refine ⟨maskBytes_eq source, ?_⟩
  constructor
  case length => simp
  case kept =>
    intro place byte here
    have keeps := (reads_self .code True.intro source).keeps place
    rw [here, Option.map_some, ByteMask.blankByte] at keeps
    rcases keeps with same | blanked
    · exact .inl same
    · split at blanked
      · exact .inl blanked
      · rename_i notFeed
        exact .inr ⟨notFeed, blanked⟩
  case ordered => exact pairwise_docComments source 0
  case cut =>
    intro comment member
    exact (cut_docComment source [] comment member).2
  case shaped =>
    intro comment member
    exact (cut_docComment source [] comment member).1.hasDocShape

end MemberDoc.Source
