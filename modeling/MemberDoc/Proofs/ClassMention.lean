import MemberDoc.Proofs.BlockPlacement
import MemberDoc.Proofs.NameText
import MemberDoc.Proofs.Reflection

set_option autoImplicit false

/-! Mentions of a class. A first block is put before the first text `class Name` of a source, while the
class is found where a whole declaration has that name; every mention before the declaration is one of
four kinds, and where there is none the block stands at the declaration. -/

namespace MemberDoc.Source

/-- Why a search goes on at a place: a word runs into it, nothing is declared there, or it belongs to a
declaration that was rejected or to the modifiers of the one that was found. -/
inductive Passing (wanted read rest : Text) : Prop where
  | inWord (runs : Text.startsWord read.head? = false)
  | missing (undeclared : declarationAt? rest = none)
  | inside (front passed : Text) (declaration : Declaration) (whole : read = passed.reverse ++ front)
      (found : declarationAt? (passed ++ rest) = some declaration) (within : passed.length < declaration.text.length)
      (rejected : (Text.sameName declaration.name wanted && !isMemberAccess front) = false ∨
        passed.length < declaration.modifiers.length)

private theorem passing_of_early (wanted reversed : Text) (skip : Nat) (text : Text) (found : Declaration)
    (known : findDeclaration? wanted reversed skip text = some found) (front rest : Text) (whole : text = front ++ rest)
    (early : reversed.length + front.length < found.lead.length) (beyond : skip ≤ front.length) :
    Passing wanted (front.reverse ++ reversed) rest := by
  induction text generalizing reversed skip front with
  | nil => cases skip <;> cases known
  | cons c text ih =>
      have later (count : Nat) (deeper : findDeclaration? wanted (c :: reversed) count text = some found)
          (tail : Text) (split : front = c :: tail) (bound : count ≤ tail.length) :
          Passing wanted (front.reverse ++ reversed) rest := by
        subst split
        have passing := ih (c :: reversed) count deeper tail (List.cons.inj whole).2 (by
          simp only [List.length_cons] at early ⊢
          omega) bound
        rw [List.reverse_cons, List.append_assoc]
        exact passing
      have onward (nonempty : front ≠ []) : ∃ tail, front = c :: tail := by
        cases front with
        | nil => exact absurd rfl nonempty
        | cons d tail => exact ⟨tail, by rw [(List.cons.inj whole).1]⟩
      cases skip with
      | succ skip =>
          obtain ⟨tail, split⟩ := onward (fun empty => by rw [empty] at beyond; cases beyond)
          rw [split, List.length_cons] at beyond
          exact later skip known tail split (by omega)
      | zero =>
          cases searchStep known with
          | missed missing deeper =>
              by_cases here : front = []
              · subst here
                rw [List.reverse_nil, List.nil_append]
                rw [whole] at missing
                by_cases starts : Text.startsWord reversed.head? = true
                · exact .missing (missing starts)
                · exact .inWord (Bool.eq_false_iff.mpr starts)
              · obtain ⟨tail, split⟩ := onward here
                exact later 0 deeper tail split (Nat.zero_le _)
          | taken declaration _ here _ same =>
              subst same
              rw [whole] at here
              simp only [Declaration.lead, List.length_append, List.length_reverse] at early
              refine .inside reversed front declaration rfl here ?_ (.inr (by omega))
              simp only [Declaration.text, List.length_append]
              omega
          | passed declaration _ here rejected deeper =>
              rw [whole] at here
              by_cases within : front.length < declaration.text.length
              · exact .inside reversed front declaration rfl here within (.inl rejected)
              · have positive : 0 < declaration.text.length := by
                  obtain ⟨d, word, starts, _⟩ := (declarationAt_parts _ _ here).keyword
                  simp only [Declaration.text, List.length_append, starts, List.length_cons]
                  omega
                obtain ⟨tail, split⟩ := onward (fun empty => by rw [empty, List.length_nil] at within; omega)
                rw [split, List.length_cons] at within
                exact later _ deeper tail split (by omega)

private theorem foldCase_afterKeyword (word text rest : Text) (found : Text.afterKeyword? word text = some rest) :
    (text.take word.length).map Text.foldCase = word := by
  obtain ⟨keyword, rfl, rfl⟩ := (Text.afterKeyword_eq_some_iff word text rest).mp found
  rw [List.length_map, List.take_left]

theorem foldCase_keyword (keywords : List Text) (text keyword rest : Text)
    (found : Text.keyword? keywords text = some (keyword, rest)) : keyword.map Text.foldCase ∈ keywords := by
  obtain ⟨_, word, member, taken, here⟩ := Text.keyword_append keywords text keyword rest found
  rw [taken, foldCase_afterKeyword word text rest here]
  exact member

/-- Two letters that stand in no modifier and in no keyword but at the start of `class`. -/
def classStart : Text :=
  "cl".toList

theorem contains_foldCase (text : Text) (found : Text.contains classStart text = true) :
    Text.contains classStart (text.map Text.foldCase) = true := by
  obtain ⟨lead, tail, whole⟩ := (Text.contains_iff _ _).mp found
  refine (Text.contains_iff _ _).mpr ⟨lead.map Text.foldCase, tail.map Text.foldCase, ?_⟩
  rw [whole, List.map_append, List.map_append]
  rfl

theorem classStart_spaced (left right : Text) (c : Char) (blank : Text.isBlank c = true)
    (notLeft : Text.contains classStart left = false) (notRight : Text.contains classStart right = false) :
    Text.contains classStart (left ++ c :: right) = false := by
  by_cases found : Text.contains classStart (left ++ c :: right) = true
  · have absent : c ∉ classStart := by
      intro member
      have letters : c = 'c' ∨ c = 'l' := by simpa [classStart] using member
      rcases letters with rfl | rfl <;> cases blank
    rcases Text.contains_apart classStart left right c absent found with front | behind
    · rw [front] at notLeft
      cases notLeft
    · rw [behind] at notRight
      cases notRight
  · simpa using found

private theorem classStart_pad (pad rest : Text) (blank : ∀ c ∈ pad, Text.isBlank c = true)
    (absent : Text.contains classStart rest = false) : Text.contains classStart (pad ++ rest) = false := by
  induction pad with
  | nil => exact absent
  | cons c pad ih =>
      exact classStart_spaced [] (pad ++ rest) c (blank c List.mem_cons_self) rfl
        (ih fun d member => blank d (List.mem_cons_of_mem c member))

private theorem classStart_modifiers (text : Text) : Text.contains classStart (splitModifiers text).1 = false := by
  generalize size : text.length = count
  induction count using Nat.strongRecOn generalizing text with
  | ind count ih =>
      cases found : afterModifier? text with
      | none =>
          rw [splitModifiers, found]
          rfl
      | some rest =>
          have split := found
          unfold afterModifier? at split
          obtain ⟨⟨keyword, behind⟩, known, blanks⟩ := Option.bind_eq_some_iff.mp split
          obtain ⟨whole, _⟩ := Text.keyword_append modifierWords text keyword behind known
          obtain ⟨c, pad, spaced, blank, padded⟩ := Text.afterBlanks_append behind rest blanks
          have place : text = (keyword ++ c :: pad) ++ rest := by
            rw [whole, spaced, List.append_assoc]
          have inKeyword : Text.contains classStart keyword = false := by
            have free : ∀ word ∈ modifierWords, Text.contains classStart word = false := by decide
            by_cases inside : Text.contains classStart keyword = true
            · rw [← free _ (foldCase_keyword _ _ _ _ known), contains_foldCase keyword inside]
              exact inside
            · simpa using inside
          rw [place] at found size ⊢
          rw [splitModifiers_step _ rest found, List.append_assoc, List.cons_append]
          rw [List.length_append, List.length_append, List.length_cons] at size
          exact classStart_spaced keyword _ c blank inKeyword
            (classStart_pad pad _ padded (ih rest.length (by omega) rest rfl))

theorem declarationAt_lexemes (text : Text) (declaration : Declaration)
    (found : declarationAt? text = some declaration) :
    ∃ c rest late, Text.keyword? kindWords (splitModifiers text).2 = some (declaration.keyword, c :: rest) ∧
      Text.isBlank c = true ∧ Text.lateName? rest = some late ∧
      declaration = ⟨[], (splitModifiers text).1, declaration.keyword, c :: late.gap, late.name, late.after⟩ := by
  rw [declarationAt_eq] at found
  unfold headAt? at found
  obtain ⟨⟨keyword, behind⟩, word, rest⟩ := Option.bind_eq_some_iff.mp found
  cases behind with
  | nil => cases rest
  | cons c behind =>
      by_cases blank : Text.isBlank c = true
      · cases attempt : Text.lateName? behind with
        | none => simp [blank, attempt] at rest
        | some late =>
            simp only [blank, attempt, if_true, Option.bind_eq_bind, Option.bind_some, Option.pure_def,
              Option.some.injEq] at rest
            subst rest
            exact ⟨c, behind, late, word, blank, attempt, rfl⟩
      · simp [blank] at rest

theorem start_within (passed more left right : Text) (whole : passed ++ (classStart ++ more) = left ++ right)
    (within : passed.length < left.length) (ends : left.getLast? ≠ some 'c') :
    Text.contains classStart left = true := by
  rcases List.append_eq_append_iff.mp whole with ⟨rest, longer, further⟩ | ⟨rest, longer, _⟩
  · cases rest with
    | nil =>
        rw [longer, List.append_nil] at within
        exact absurd within (Nat.lt_irrefl _)
    | cons c rest =>
        obtain ⟨rfl, tail⟩ := List.cons.inj further
        cases rest with
        | nil =>
            rw [longer, List.getLast?_concat] at ends
            exact absurd rfl ends
        | cons d rest =>
            obtain ⟨rfl, _⟩ := List.cons.inj tail
            exact (Text.contains_iff _ _).mpr ⟨passed, rest, by rw [longer, List.append_assoc]; rfl⟩
  · rw [longer, List.length_append] at within
    omega

private theorem exists_past (passed more left right : Text) (whole : passed ++ more = left ++ right)
    (past : left.length ≤ passed.length) : ∃ rest, passed = left ++ rest ∧ rest ++ more = right := by
  rcases List.append_eq_append_iff.mp whole with ⟨rest, longer, further⟩ | ⟨rest, longer, further⟩
  · rw [longer, List.length_append] at past
    have empty : rest = [] := List.eq_nil_of_length_eq_zero (by omega)
    subst empty
    exact ⟨[], by rw [longer, List.append_nil, List.append_nil], further⟩
  · exact ⟨rest, longer, further.symm⟩

private theorem keyword_past (passed more keyword rest : Text) (folded : keyword.map Text.foldCase ∈ kindWords)
    (whole : passed ++ (classStart ++ more) = keyword ++ rest) (nonempty : passed ≠ []) :
    keyword.length ≤ passed.length := by
  have facts : ∀ word ∈ kindWords, Text.contains classStart word.tail = false ∧
      word.tail.getLast? ≠ some 'c' := by decide
  obtain ⟨absent, notLast⟩ := facts _ folded
  cases passed with
  | nil => exact absurd rfl nonempty
  | cons c passed =>
      cases keyword with
      | nil => exact Nat.zero_le _
      | cons first keyword =>
          rw [List.map_cons, List.tail_cons] at absent notLast
          by_cases short : passed.length < keyword.length
          · have inside := start_within passed more keyword rest (List.cons.inj whole).2 short
              (fun letter => notLast (by rw [List.getLast?_map, letter]; rfl))
            rw [contains_foldCase keyword inside] at absent
            cases absent
          · simp only [List.length_cons]
            omega

private theorem name_of_class (passed more name after : Text) (chars : ∀ c ∈ name, Text.isNameChar c = true)
    (stops : ∀ c, after.head? = some c → Text.isNameChar c = false)
    (whole : passed ++ ("class ".toList ++ more) = name ++ after) (within : passed.length < name.length) :
    name = passed ++ "class".toList := by
  have taken : (name ++ after).takeWhile Text.isNameChar = name := by
    rw [List.takeWhile_append_of_pos chars]
    cases after with
    | nil => simp
    | cons c after => rw [List.takeWhile_cons, stops c rfl, if_neg (by decide), List.append_nil]
  have front : ∀ c ∈ passed, Text.isNameChar c = true := by
    intro c member
    rcases List.append_eq_append_iff.mp whole with ⟨rest, longer, _⟩ | ⟨rest, longer, _⟩
    · exact chars c (by rw [longer]; exact List.mem_append_left rest member)
    · rw [longer, List.length_append] at within
      omega
  rw [← taken, ← whole, List.takeWhile_append_of_pos front]
  rfl

private theorem modifiers_past (passed more modifiers rest : Text)
    (own : modifiers = (splitModifiers (passed ++ (classStart ++ more))).1)
    (whole : passed ++ (classStart ++ more) = modifiers ++ rest) : modifiers.length ≤ passed.length := by
  by_cases inside : passed.length < modifiers.length
  · have nonempty : modifiers ≠ [] := fun empty => by rw [empty] at inside; cases inside
    have present := start_within passed more modifiers rest whole inside (by
      rw [own] at nonempty ⊢
      obtain ⟨last, ends, spaced⟩ := getLast_splitModifiers _ nonempty
      intro letter
      rw [ends] at letter
      cases letter
      cases spaced)
    rw [own, classStart_modifiers] at present
    cases present
  · omega

private theorem blanks_past (passed more gap rest : Text) (blank : ∀ c ∈ gap, Text.isBlank c = true)
    (whole : passed ++ (classStart ++ more) = gap ++ rest) : gap.length ≤ passed.length := by
  by_cases inside : passed.length < gap.length
  · rcases List.append_eq_append_iff.mp whole with ⟨left, longer, further⟩ | ⟨left, longer, _⟩
    · cases left with
      | nil =>
          rw [longer, List.append_nil] at inside
          exact absurd inside (Nat.lt_irrefl _)
      | cons d left =>
          have letter : some 'c' = some d := congrArg List.head? further
          have member : 'c' ∈ gap := by
            rw [longer, Option.some.inj letter]
            exact List.mem_append_right passed List.mem_cons_self
          cases blank 'c' member
    · rw [longer, List.length_append] at inside
      omega
  · omega

/-- Inside a declaration the keyword stands behind the modifiers or at the end of the name. -/
theorem class_in_declaration (passed more : Text) (declaration : Declaration)
    (found : declarationAt? (passed ++ ("class ".toList ++ more)) = some declaration)
    (within : passed.length < declaration.text.length) :
    passed = declaration.modifiers ∨
      ∃ front, passed = declaration.modifiers ++ (declaration.keyword ++ (declaration.gap ++ front)) ∧
        declaration.name = front ++ "class".toList := by
  have parts := declarationAt_parts _ _ found
  obtain ⟨c, rest, late, known, blank, attempt, same⟩ := declarationAt_lexemes _ _ found
  obtain ⟨_, _, blanks, chars⟩ := Text.lateName_append _ _ attempt
  have gap : declaration.gap = c :: late.gap := congrArg Declaration.gap same
  have name : declaration.name = late.name := congrArg Declaration.name same
  have after : declaration.after = late.after := congrArg Declaration.after same
  have spaced : ∀ d ∈ declaration.gap, Text.isBlank d = true := by
    rw [gap]
    exact List.forall_mem_cons.mpr ⟨blank, blanks⟩
  have whole := parts.whole
  simp only [Declaration.text, List.append_assoc] at whole within
  -- The place lies in the modifiers, in the keyword, in the gap or in the name.
  obtain ⟨inKeyword, split, whole⟩ := exists_past _ _ _ _ whole (modifiers_past passed _ _ _ parts.modifiers whole)
  by_cases here : inKeyword = []
  · exact .inl (by rw [split, here, List.append_nil])
  right
  obtain ⟨inGap, splitKeyword, whole⟩ := exists_past _ _ _ _ whole
    (keyword_past inKeyword _ _ _ (foldCase_keyword _ _ _ _ known) whole here)
  obtain ⟨inName, splitGap, whole⟩ := exists_past _ _ _ _ whole (blanks_past inGap _ _ _ spaced whole)
  refine ⟨inName, by rw [split, splitKeyword, splitGap], ?_⟩
  rw [name, after] at whole
  rw [name]
  refine name_of_class inName more late.name late.after chars (Text.lateName_name _ _ attempt).2 whole ?_
  rw [split, splitKeyword, splitGap, name] at within
  simp only [List.length_append] at within
  omega

private theorem declarationAt_class (text : Text) :
    declarationAt? ("class ".toList ++ text) = (Text.lateName? text).map fun found =>
      ⟨[], [], "class".toList, ' ' :: found.gap, found.name, found.after⟩ := by
  have bare : afterModifier? ("class ".toList ++ text) = none := rfl
  have keyword : Text.keyword? kindWords ("class ".toList ++ text) = some ("class".toList, ' ' :: text) := rfl
  rw [declarationAt_bare _ bare, headAt?, keyword]
  cases known : Text.lateName? text <;> simp [known, show Text.isBlank ' ' = true from rfl]

theorem ne_of_isNameChar (c d : Char) (part : Text.isNameChar c = true) (apart : Text.isNameChar d = false) : c ≠ d := by
  rintro rfl
  rw [part] at apart
  cases apart

theorem isSolid_of_isNameChar (c : Char) (part : Text.isNameChar c = true) : isSolid c = true := by
  have other (d : Char) (apart : Text.isNameChar d = false) : c ≠ d := ne_of_isNameChar c d part apart
  simp [isSolid, isQuote, other ' ' rfl, other '\n' rfl, other '#' rfl, other '[' rfl, other '\x22' rfl,
    other '\x27' rfl]

private theorem isInert_of_isNameChar (c : Char) (part : Text.isNameChar c = true) : isInert c = true := by
  have other (d : Char) (apart : Text.isNameChar d = false) : c ≠ d := ne_of_isNameChar c d part apart
  simp [isInert, isQuote, other '/' rfl, other '#' rfl, other '\x22' rfl, other '\x27' rfl]

theorem eq_nil_of_byteLength (text : Text) (empty : Text.byteLength text = 0) : text = [] := by
  cases text with
  | nil => rfl
  | cons c rest =>
      have positive := Text.byteLength_pos c rest
      omega

theorem getLast_of_mask (text : Text) (c : Char) (solid : isSolid c = true)
    (ends : (mask .code text).getLast? = some c) : text.getLast? = some c := by
  obtain ⟨shown, whole⟩ := List.getLast?_eq_some_iff.mp ends
  obtain ⟨before, rest, split, _, masked⟩ := reads_of_solid .code True.intro text shown [] c solid whole
  have size := byteLength_mask rest
  rw [masked] at size
  rw [split, eq_nil_of_byteLength rest size.symm, List.getLast?_concat]

private theorem head_of_mask (text : Text) (c : Char) (solid : isSolid c = true)
    (starts : (mask .code text).head? = some c) : text.head? = some c := by
  obtain ⟨rest, whole⟩ := List.head?_eq_some_iff.mp starts
  obtain ⟨before, behind, split, reads, _⟩ := reads_of_solid .code True.intro text [] rest c solid whole
  rw [split, eq_nil_of_byteLength before reads.byteLength_shown.symm]
  rfl

/-- What a text `class Name` before the declaration of the class can be. -/
inductive Mention (short before behind : Text) : Prop where
  /-- The end of a longer word, and a name behind it. -/
  | inWord (c : Char) (ends : before.getLast? = some c) (part : Text.isNameChar c = true)
  /-- The keyword and the start of a longer name. -/
  | longer (c : Char) (starts : behind.head? = some c) (part : Text.isNameChar c = true)
  /-- A member called `class`, perhaps with words before it that could be modifiers. -/
  | member (front modifiers : Text) (whole : mask .code before = front ++ modifiers)
      (modified : (splitModifiers (modifiers ++ ("class ".toList ++ (short ++ mask .code behind)))).1 = modifiers)
      (access : isMemberAccess front.reverse = true)
  /-- The name of another declaration. -/
  | named (front keyword gap : Text) (whole : mask .code before = front ++ (keyword ++ gap))
      (kind : keyword.map Text.foldCase ∈ kindWords) (spaced : gap ≠ []) (blank : ∀ c ∈ gap, Text.isBlank c = true)

/-- A name that is found whole wherever it is written out. -/
def IsSpelled (short : Text) : Prop :=
  ∀ more, Text.lateName? (short ++ more) =
    some ⟨[], short ++ more.takeWhile Text.isNameChar, more.dropWhile Text.isNameChar⟩

theorem late_at_modifiers (more : Text) (declaration : Declaration)
    (found : declarationAt? (declaration.modifiers ++ ("class ".toList ++ more)) = some declaration) :
    ∃ late, Text.lateName? more = some late ∧ declaration.name = late.name := by
  have parts := declarationAt_parts _ _ found
  have start : (splitModifiers (declaration.modifiers ++ ("class ".toList ++ more))).2 = "class ".toList ++ more := by
    have whole := splitModifiers_append (declaration.modifiers ++ ("class ".toList ++ more))
    rw [← parts.modifiers] at whole
    exact (List.append_cancel_left whole).symm
  have keyword : Text.keyword? kindWords ("class ".toList ++ more) = some ("class".toList, ' ' :: more) := rfl
  obtain ⟨c, rest, late, known, _, attempt, same⟩ := declarationAt_lexemes _ _ found
  rw [start, keyword] at known
  rw [← (List.cons.inj (Prod.mk.inj (Option.some.inj known)).2).2] at attempt
  exact ⟨late, attempt, congrArg Declaration.name same⟩

private theorem head_of_takeWhile {p : Char → Bool} {text : Text} {c : Char} {rest : Text}
    (taken : text.takeWhile p = c :: rest) :
    text.head? = some c ∧ p c = true := by
  cases text with
  | nil => cases taken
  | cons d text =>
      rw [List.takeWhile_cons] at taken
      split at taken
      · rename_i holds
        obtain ⟨rfl, _⟩ := List.cons.inj taken
        exact ⟨rfl, holds⟩
      · cases taken

/-- A mention that a declaration starts with: the name goes on, or else the declaration was rejected for being
accessed as a member. -/
theorem mention_at_keyword (short before behind front : Text) (declaration : Declaration) (spelled : IsSpelled short)
    (place : mask .code before = front.reverse ++ declaration.modifiers)
    (found : declarationAt? (declaration.modifiers ++ ("class ".toList ++ (short ++ mask .code behind))) =
      some declaration)
    (rejected : (Text.sameName declaration.name short && !isMemberAccess front) = false) :
    Mention short before behind := by
  obtain ⟨late, attempt, name⟩ := late_at_modifiers _ declaration found
  rw [spelled] at attempt
  rw [← Option.some.inj attempt] at name
  dsimp only at name
  cases more : (mask .code behind).takeWhile Text.isNameChar with
  | nil =>
      rw [more, List.append_nil] at name
      refine .member front.reverse declaration.modifiers place (declarationAt_parts _ _ found).modifiers.symm ?_
      rw [List.reverse_reverse]
      simpa [name, Text.sameName] using rejected
  | cons c rest =>
      obtain ⟨starts, part⟩ := head_of_takeWhile more
      exact .longer c (head_of_mask behind c (isSolid_of_isNameChar c part) starts) part

private theorem mention_in_name (short before behind front inName more : Text) (declaration : Declaration)
    (place : mask .code before =
      front ++ (declaration.modifiers ++ (declaration.keyword ++ (declaration.gap ++ inName))))
    (found : declarationAt? more = some declaration) (name : declaration.name = inName ++ "class".toList) :
    Mention short before behind := by
  obtain ⟨c, rest, late, known, blank, attempt, same⟩ := declarationAt_lexemes _ _ found
  obtain ⟨_, _, blanks, _⟩ := Text.lateName_append _ _ attempt
  have gap : declaration.gap = c :: late.gap := congrArg Declaration.gap same
  rcases List.eq_nil_or_concat inName with rfl | ⟨inner, last, rfl⟩
  · refine .named (front ++ declaration.modifiers) declaration.keyword declaration.gap ?_
      (foldCase_keyword _ _ _ _ known) (by rw [gap]; exact List.cons_ne_nil _ _) ?_
    · rw [place, List.append_nil, List.append_assoc]
    · rw [gap]
      exact List.forall_mem_cons.mpr ⟨blank, blanks⟩
  · have part : Text.isNameChar last = true := by
      apply (declarationAt_parts _ _ found).nameChars
      rw [name]
      simp
    refine .inWord last (getLast_of_mask before last (isSolid_of_isNameChar last part) ?_) part
    rw [place, List.concat_eq_append]
    simp only [← List.append_assoc, List.getLast?_concat]

private theorem mention_of_passing (short before behind : Text) (spelled : IsSpelled short)
    (passing : Passing short (mask .code before).reverse ("class ".toList ++ (short ++ mask .code behind))) :
    Mention short before behind := by
  cases passing with
  | inWord runs =>
      rw [List.head?_reverse] at runs
      cases ends : (mask .code before).getLast? with
      | none =>
          rw [ends] at runs
          cases runs
      | some c =>
          rw [ends] at runs
          have word : Text.isWord c = true := by simpa [Text.startsWord] using runs
          exact .inWord c (getLast_of_mask before c (isSolid_of_isWord c word) ends) (isNameChar_of_isWord c word)
  | missing undeclared =>
      rw [declarationAt_class, spelled] at undeclared
      cases undeclared
  | inside front passed declaration whole found within rejected =>
      have place : mask .code before = front.reverse ++ passed := by
        rw [← List.reverse_reverse (mask .code before), whole, List.reverse_append, List.reverse_reverse]
      rcases class_in_declaration passed _ declaration found within with atKeyword | ⟨inName, inside, name⟩
      · subst atKeyword
        rcases rejected with rejected | early
        · exact mention_at_keyword short before behind front declaration spelled place found rejected
        · exact absurd early (Nat.lt_irrefl _)
      · rw [inside] at place
        exact mention_in_name short before behind front.reverse inName _ declaration place found name

theorem mask_mention (short before behind : Text) (chars : ∀ c ∈ short, Text.isNameChar c = true)
    (inCode : ending .code before = .code) :
    mask .code (before ++ ("class ".toList ++ short) ++ behind) =
      mask .code before ++ ("class ".toList ++ (short ++ mask .code behind)) := by
  have lead : Reads .code before (("class ".toList ++ short) ++ behind) (mask .code before) .code :=
    reads_of_ending before _ inCode fun _ =>
      ⟨show some 'c' ≠ some '*' by decide, show some 'c' ≠ some '/' by decide⟩
  have inert : ∀ c ∈ "class ".toList, isInert c = true := Text.forall_of_all (by decide)
  have word : Reads .code ("class ".toList ++ short) behind ("class ".toList ++ short) .code := by
    apply reads_inert
    intro c member
    rcases List.mem_append.mp member with inKeyword | inShort
    · exact inert c inKeyword
    · exact isInert_of_isNameChar c (chars c inShort)
  rw [List.append_assoc, lead.mask_eq, word.mask_eq, List.append_assoc]

private theorem endsFirm_short (className : Text) :
    Text.EndsFirm (ClassName.short (ClassName.qualified className)) := by
  have firm := ClassName.endsFirm_qualified className
  unfold ClassName.short
  split
  · rename_i path segment found
    obtain ⟨whole, _⟩ := Text.splitLast_append _ _ _ _ found
    intro c last
    have nonempty : segment ≠ [] := fun empty => by rw [empty] at last; cases last
    apply firm c
    rw [whole, ← List.singleton_append, ← List.append_assoc, Text.getLast_suffix _ _ nonempty]
    exact last
  · exact firm

theorem isNameChar_short (source className : Text) (site : Site) (known : site? source className = some site) :
    ∀ c ∈ ClassName.short (ClassName.qualified className), Text.isNameChar c = true := by
  obtain ⟨found, _, _⟩ := (site_eq_some_iff source className site).mp known
  obtain ⟨_, same, rest, attempt⟩ := findDeclaration_spec _ _ _ _ _ found
  exact Text.isNameChar_of_sameName _ _ same (declarationAt_parts _ _ attempt).nameChars

/-- The name of a class whose declaration is written out is found wherever it is. -/
theorem isSpelled_of_site (source className : Text) (site : Site) (known : site? source className = some site)
    (lead tail : Text)
    (written : source = lead ++ ("class ".toList ++ ClassName.short (ClassName.qualified className)) ++ tail)
    (place : Text.byteLength lead = site.keywordOffset) (inCode : ending .code lead = .code) :
    mask .code lead = site.declaration.lead ∧ IsSpelled (ClassName.short (ClassName.qualified className)) := by
  have masked := mask_mention _ lead tail (isNameChar_short source className site known) inCode
  rw [← written, mask_of_site source className site known] at masked
  obtain ⟨front, behind⟩ := Text.append_inj_of_byteLength _ _ _ _ masked (by
    rw [byteLength_mask, place]
    rfl)
  refine ⟨front.symm, ?_⟩
  obtain ⟨found, _, opened⟩ := (site_eq_some_iff source className site).mp known
  obtain ⟨_, same, rest, attempt⟩ := findDeclaration_spec _ _ _ _ _ found
  have whole := (declarationAt_parts _ _ attempt).whole
  have after := Text.splitFirst_append _ _ _ _ opened
  have text : rest = site.declaration.modifiers ++
      ("class ".toList ++ (ClassName.short (ClassName.qualified className) ++ mask .code tail)) := by
    rw [whole, ← behind]
    simp only [Declaration.text, Site.opening, after, List.append_assoc]
  rw [text] at attempt
  obtain ⟨late, name, sameName⟩ := late_at_modifiers _ { site.declaration with before := [] } attempt
  intro more
  refine Text.lateName_spelled _ _ late name ?_ (endsFirm_short className) more
  rw [← sameName]
  exact same

end MemberDoc.Source

namespace MemberDoc.Insertion

open Source

theorem placeBlock_none_iff (shortName lead tail : Text) :
    (∀ block, placeBlock (lead ++ ("class ".toList ++ shortName) ++ tail) none block shortName =
        lead ++ block ++ ['\n'] ++ ("class ".toList ++ shortName) ++ tail) ↔
      Text.IsFirst ("class ".toList ++ shortName) (lead ++ ("class ".toList ++ shortName) ++ tail) lead := by
  obtain ⟨⟨before, behind⟩, found⟩ := Text.splitFirst_isSome ("class ".toList ++ shortName) lead tail
  rw [← Text.fill_eq_iff _ (['\n'] ++ ("class ".toList ++ shortName)) lead tail before behind found]
  apply forall_congr'
  intro block
  rw [placeBlock_before _ _ before behind found]
  simp only [List.append_assoc]

/-- The first block of a class stands before its declaration, for every block, exactly if its keyword
and name are not mentioned any earlier. As long as no comment or string mentions them, an earlier
mention is of one of four kinds. -/
theorem placeBlock_declaration_iff (source className : Text) (site : Site)
    (known : site? source className = some site) (bare : site.docComment source = none) (lead tail : Text)
    (written : source = lead ++ ("class ".toList ++ ClassName.short (ClassName.qualified className)) ++ tail)
    (place : Text.byteLength lead = site.keywordOffset)
    (inCode : ∀ before behind,
      source = before ++ ("class ".toList ++ ClassName.short (ClassName.qualified className)) ++ behind →
        ending .code before = .code) :
    ((∀ block, placeBlock source ((site.docComment source).map DocComment.text) block
        (ClassName.short (ClassName.qualified className)) =
          lead ++ block ++ ['\n'] ++ ("class ".toList ++ ClassName.short (ClassName.qualified className)) ++ tail) ↔
      Text.IsFirst ("class ".toList ++ ClassName.short (ClassName.qualified className)) source lead) ∧
    ∀ before behind,
      source = before ++ ("class ".toList ++ ClassName.short (ClassName.qualified className)) ++ behind →
        before.length < lead.length → Mention (ClassName.short (ClassName.qualified className)) before behind := by
  constructor
  · rw [bare, Option.map_none, written]
    exact placeBlock_none_iff _ lead tail
  · intro before behind mentioned early
    obtain ⟨front, spelled⟩ := isSpelled_of_site source className site known lead tail written place
      (inCode lead tail written)
    have chars := isNameChar_short source className site known
    have masked := mask_mention _ before behind chars (inCode before behind mentioned)
    rw [← mentioned] at masked
    obtain ⟨found, _, _⟩ := (site_eq_some_iff source className site).mp known
    -- Places are compared in the source, in bytes and then in the mask.
    have nearer : (mask .code before).length < site.declaration.lead.length := by
      have inSource := written.symm.trans mentioned
      have inMask := masked.symm.trans (mask_of_site source className site known)
      simp only [List.append_assoc] at inSource
      rw [← Text.byteLength_lt_iff _ _ _ _ inSource.symm] at early
      rw [← Text.byteLength_lt_iff _ _ _ _ inMask, ← front, byteLength_mask, byteLength_mask]
      exact early
    have passing := passing_of_early _ [] 0 _ _ found (mask .code before) _ masked
      (by rw [List.length_nil, Nat.zero_add]; exact nearer) (Nat.zero_le _)
    rw [List.append_nil] at passing
    exact mention_of_passing _ before behind spelled passing

def standsInCode (piece source : Text) : Bool :=
  (List.range (source.length + 1)).all fun place =>
    !Text.startsWith piece (source.drop place) || ending .code (source.take place) == .code

private theorem ending_of_standsInCode (piece source : Text) (all : standsInCode piece source = true)
    (before behind : Text) (mentioned : source = before ++ piece ++ behind) : ending .code before = .code := by
  have place : before.length ∈ List.range (source.length + 1) := by
    rw [List.mem_range, mentioned]
    simp only [List.length_append]
    omega
  have here := List.all_eq_true.mp all before.length place
  have starts : Text.startsWith piece (source.drop before.length) = true := by
    rw [mentioned, List.append_assoc, List.drop_left, Text.startsWith,
      (Text.after_eq_some_iff piece (piece ++ behind) behind).mpr rfl]
    rfl
  rw [starts, mentioned, List.append_assoc, List.take_left] at here
  simpa using here

def factorySource : Text :=
  "<?php\nclass UserFactory \x7b\x7d\nclass User \x7b\x7d\n".toList

def factoryLead : Text :=
  "<?php\nclass UserFactory \x7b\x7d\n".toList

def userSite : Site :=
  (site? factorySource "User".toList).get (by decide +kernel)

theorem site_user : site? factorySource "User".toList = some userSite := by
  decide +kernel

theorem placeBlock_declaration_iff_user :
    site? factorySource "User".toList = some userSite ∧
      ((∀ block, placeBlock factorySource ((userSite.docComment factorySource).map DocComment.text) block
          "User".toList = factoryLead ++ block ++ ['\n'] ++ "class User".toList ++ " \x7b\x7d\n".toList) ↔
        Text.IsFirst "class User".toList factorySource factoryLead) ∧
      ∀ before behind, factorySource = before ++ "class User".toList ++ behind →
        before.length < factoryLead.length → Mention "User".toList before behind :=
  ⟨site_user, placeBlock_declaration_iff factorySource "User".toList userSite site_user (by decide +kernel) factoryLead
    " \x7b\x7d\n".toList (by decide +kernel) (by decide +kernel)
    (ending_of_standsInCode _ factorySource (by decide +kernel))⟩

/-- The first block of a class is put before a class whose name starts with the same letters. -/
theorem block_before_longer_name :
    site? factorySource "User".toList = some userSite ∧ userSite.docComment factorySource = none ∧
      Text.byteLength factoryLead = userSite.keywordOffset ∧
      standsInCode "class User".toList factorySource = true ∧
      placeBlock factorySource none "/** New */".toList "User".toList =
        "<?php\n/** New */\nclass UserFactory \x7b\x7d\nclass User \x7b\x7d\n".toList ∧
      placeBlock factorySource none "/** New */".toList "User".toList ≠
        factoryLead ++ "/** New */".toList ++ ['\n'] ++ "class User".toList ++ " \x7b\x7d\n".toList := by
  refine ⟨site_user, ?_, ?_, ?_, ?_, ?_⟩ <;> decide +kernel

end MemberDoc.Insertion
