import MemberDoc.Text.Basic

set_option autoImplicit false

/-! Blanks, words and lines: what trimming and collapsing leave, and which pieces are found again
in a text that was joined from them. -/

namespace MemberDoc

/-- What holds of every start of a list, for a list with a first item. -/
theorem forall_start_cons {Item : Type} (property : List Item → Prop) (first : Item) (rest : List Item) :
    (∀ part, part <+: first :: rest → property part) ↔
      property [] ∧ ∀ part, part <+: rest → property (first :: part) := by
  constructor
  · intro all
    exact ⟨all [] List.nil_prefix, fun part starts => all _ (List.cons_prefix_cons.mpr ⟨rfl, starts⟩)⟩
  · rintro ⟨empty, longer⟩ part starts
    rcases List.prefix_cons_iff.mp starts with rfl | ⟨inner, rfl, begins⟩
    · exact empty
    · exact longer inner begins

/-- What holds before every mark in a list, for a list with a first item. -/
theorem forall_before_cons {Item : Type} (mark : Item) (property : List Item → Prop) (first : Item)
    (rest : List Item) :
    (∀ part, part ++ [mark] <+: first :: rest → property part) ↔
      (first = mark → property []) ∧ ∀ part, part ++ [mark] <+: rest → property (first :: part) := by
  constructor
  · intro all
    refine ⟨fun same => all [] ?_, fun part starts => all _ (List.cons_prefix_cons.mpr ⟨rfl, starts⟩)⟩
    rw [same]
    exact ⟨rest, rfl⟩
  · rintro ⟨here, later⟩ part starts
    cases part with
    | nil => exact here (List.cons_prefix_cons.mp starts).1.symm
    | cons item part =>
        obtain ⟨rfl, begins⟩ := List.cons_prefix_cons.mp starts
        exact later part begins

theorem lookup_of_mem {Key Value : Type} [BEq Key] [LawfulBEq Key] (entries : List (Key × Value))
    (distinct : (entries.map Prod.fst).Nodup) (key : Key) (value : Value) (member : (key, value) ∈ entries) :
    entries.lookup key = some value := by
  obtain ⟨before, after, rfl⟩ := List.append_of_mem member
  apply List.lookup_eq_some_iff.mpr
  refine ⟨before, after, rfl, fun entry earlier => ?_⟩
  rw [List.map_append, List.map_cons] at distinct
  have apart := (List.nodup_append.mp distinct).2.2 entry.1 (List.mem_map_of_mem earlier) key List.mem_cons_self
  simpa using fun same => apart same.symm

theorem lookup_perm {Key Value : Type} [BEq Key] [LawfulBEq Key] (left right : List (Key × Value))
    (reordered : left.Perm right) (distinct : (left.map Prod.fst).Nodup) (key : Key) :
    left.lookup key = right.lookup key := by
  have also : (right.map Prod.fst).Nodup := (reordered.map Prod.fst).nodup_iff.mp distinct
  apply Option.ext
  intro value
  constructor
  · intro found
    obtain ⟨before, after, rfl, _⟩ := List.lookup_eq_some_iff.mp found
    exact lookup_of_mem right also key value (reordered.mem_iff.mp (by simp))
  · intro found
    obtain ⟨before, after, rfl, _⟩ := List.lookup_eq_some_iff.mp found
    exact lookup_of_mem left distinct key value (reordered.mem_iff.mpr (by simp))

end MemberDoc

namespace MemberDoc.Text

/-! ### Blanks at the ends -/

def EndsFirm (text : Text) : Prop :=
  ∀ c, text.getLast? = some c → isBlank c = false

instance (text : Text) : Decidable (EndsFirm text) :=
  decidable_of_iff ((text.getLast?.all fun c => !isBlank c) = true) (by
    unfold EndsFirm
    cases text.getLast? <;> simp)

@[simp] theorem endsFirm_nil : EndsFirm [] := by
  intro c last
  cases last

theorem endsFirm_concat (text : Text) (c : Char) (firm : isBlank c = false) :
    EndsFirm (text ++ [c]) := by
  intro d last
  rw [List.getLast?_concat] at last
  cases last
  exact firm

theorem endsFirm_append (lead text : Text) (nonempty : text ≠ []) (firm : EndsFirm text) :
    EndsFirm (lead ++ text) := by
  intro c last
  rw [List.getLast?_append, List.getLast?_eq_some_getLast nonempty, Option.some_or] at last
  exact firm c ((List.getLast?_eq_some_getLast nonempty).trans last)

theorem trimStart_cons (c : Char) (rest : Text) (firm : isBlank c = false) :
    trimStart (c :: rest) = c :: rest := by
  simp only [trimStart, List.dropWhile_cons, firm, Bool.false_eq_true, if_false]

theorem trimEnd_concat (text : Text) (c : Char) (firm : isBlank c = false) :
    trimEnd (text ++ [c]) = text ++ [c] := by
  simp only [trimEnd, List.reverse_append, List.reverse_cons, List.reverse_nil, List.nil_append,
    List.singleton_append, List.dropWhile_cons, firm, Bool.false_eq_true, if_false,
    List.reverse_reverse]

theorem trimEnd_cons (c : Char) (rest : Text) (firm : isBlank c = false) :
    trimEnd (c :: rest) = c :: trimEnd rest := by
  have stops : [c].dropWhile isBlank = [c] := trimStart_cons c [] firm
  unfold trimEnd
  rw [List.reverse_cons, List.dropWhile_append, stops]
  split
  · rename_i blank
    rw [List.isEmpty_iff.mp blank]
    rfl
  · simp only [List.reverse_append, List.reverse_cons, List.reverse_nil, List.nil_append,
      List.singleton_append]

theorem trimEnd_of_endsFirm (text : Text) (firm : EndsFirm text) : trimEnd text = text := by
  rcases List.eq_nil_or_concat text with rfl | ⟨lead, c, rfl⟩
  · rfl
  · rw [List.concat_eq_append]
    rw [List.concat_eq_append] at firm
    exact trimEnd_concat lead c (firm c List.getLast?_concat)

theorem trimEnd_append (left right : Text) (firm : EndsFirm left) : trimEnd (left ++ right) = left ++ trimEnd right := by
  have stable := congrArg List.reverse (trimEnd_of_endsFirm left firm)
  unfold trimEnd at stable ⊢
  rw [List.reverse_reverse] at stable
  rw [List.reverse_append, List.dropWhile_append, stable]
  split
  · rename_i blank
    rw [List.isEmpty_iff.mp blank, List.reverse_reverse, List.reverse_nil, List.append_nil]
  · rw [List.reverse_append, List.reverse_reverse]

theorem endsFirm_trimEnd (text : Text) : EndsFirm (trimEnd text) := by
  intro c last
  simp only [trimEnd, List.getLast?_reverse] at last
  have found := List.head?_dropWhile_not isBlank text.reverse
  rw [last] at found
  simpa using found

theorem mem_of_mem_trimEnd (c : Char) (text : Text) (member : c ∈ trimEnd text) : c ∈ text := by
  simp only [trimEnd, List.mem_reverse] at member
  exact List.mem_reverse.mp ((List.dropWhile_sublist isBlank).mem member)

theorem mem_of_mem_trimStart (c : Char) (text : Text) (member : c ∈ trimStart text) : c ∈ text :=
  (List.dropWhile_sublist isBlank).mem member

theorem trim_of_firm (c : Char) (rest : Text) (first : isBlank c = false) (last : EndsFirm (c :: rest)) :
    trim (c :: rest) = c :: rest := by
  rw [trim, trimStart_cons c rest first, trimEnd_of_endsFirm _ last]

theorem trimStart_append (text more : Text) :
    trimStart (text ++ more) = if trimStart text = [] then trimStart more else trimStart text ++ more := by
  unfold trimStart
  rw [List.dropWhile_append]
  simp only [List.isEmpty_iff]

theorem trimStart_pad (pad text : Text) (blank : ∀ c ∈ pad, isBlank c = true) :
    trimStart (pad ++ text) = trimStart text :=
  List.dropWhile_append_of_pos blank

theorem trimStart_split (text : Text) :
    ∃ pad, text = pad ++ trimStart text ∧ ∀ c ∈ pad, isBlank c = true :=
  ⟨text.takeWhile isBlank, List.takeWhile_append_dropWhile.symm, List.all_eq_true.mp List.all_takeWhile⟩

theorem isBlank_of_trimStart (text rest : Text) (c : Char) (known : trimStart text = c :: rest) :
    isBlank c = false := by
  have starts := List.head?_dropWhile_not isBlank text
  rw [show text.dropWhile isBlank = c :: rest from known] at starts
  exact starts

theorem trimStart_eq_nil (text : Text) (empty : trimStart text = []) : ∀ c ∈ text, isBlank c = true := by
  obtain ⟨pad, whole, blank⟩ := trimStart_split text
  rw [empty, List.append_nil] at whole
  rw [whole]
  exact blank

@[simp] theorem trimStart_trim (text : Text) : trimStart (trim text) = trim text := by
  unfold trim
  cases known : trimStart text with
  | nil => rfl
  | cons c rest =>
      have solid := isBlank_of_trimStart text rest c known
      rw [trimEnd_cons c rest solid, trimStart_cons c _ solid]

theorem trim_eq_nil_iff (text : Text) : trim text = [] ↔ ∀ c ∈ text, isBlank c = true := by
  constructor
  · intro empty
    apply trimStart_eq_nil
    cases known : trimStart text with
    | nil => rfl
    | cons c rest =>
        rw [trim, known, trimEnd_cons c rest (isBlank_of_trimStart text rest c known)] at empty
        cases empty
  · intro blank
    have nothing := trimStart_pad text [] blank
    rw [List.append_nil] at nothing
    rw [trim, nothing]
    rfl

/-- Blanks around a text are all that is trimmed, if it has none at its ends. -/
theorem trim_padded (front core behind : Text) (before : ∀ c ∈ front, isBlank c = true)
    (after : ∀ c ∈ behind, isBlank c = true) (starts : trimStart core = core) (ends : EndsFirm core) :
    trim (front ++ core ++ behind) = core := by
  have spaces : trim behind = [] := (trim_eq_nil_iff behind).mpr after
  rw [List.append_assoc, trim, trimStart_pad front _ before]
  cases core with
  | nil => exact spaces
  | cons c rest =>
      have solid := isBlank_of_trimStart (c :: rest) rest c starts
      have reversed : trimEnd behind = [] := by
        have turned := trimStart_pad behind.reverse [] fun c member => after c (List.mem_reverse.mp member)
        rw [List.append_nil] at turned
        change (trimStart behind.reverse).reverse = []
        rw [turned]
        rfl
      rw [List.cons_append, trimStart_cons c _ solid, ← List.cons_append, trimEnd_append _ _ ends, reversed,
        List.append_nil]

theorem trim_split (text : Text) : ∃ front behind, text = front ++ trim text ++ behind ∧
    (∀ c ∈ front, isBlank c = true) ∧ ∀ c ∈ behind, isBlank c = true := by
  obtain ⟨front, whole, blank⟩ := trimStart_split text
  refine ⟨front, ((trimStart text).reverse.takeWhile isBlank).reverse, ?_, blank, ?_⟩
  · have turned : (trimStart text).reverse.takeWhile isBlank ++
        (trimStart text).reverse.dropWhile isBlank = (trimStart text).reverse :=
      List.takeWhile_append_dropWhile
    have again := congrArg List.reverse turned
    rw [List.reverse_append, List.reverse_reverse] at again
    rw [trim, trimEnd, List.append_assoc, again]
    exact whole
  · intro c member
    exact List.all_eq_true.mp List.all_takeWhile c (List.mem_reverse.mp member)

theorem getLast_of_endsWith (c : Char) (text : Text) (ends : endsWith [c] text = true) :
    ∃ front, text = front ++ [c] := by
  unfold endsWith startsWith at ends
  obtain ⟨rest, found⟩ := Option.isSome_iff_exists.mp ends
  rw [List.reverse_singleton] at found
  have turned : text.reverse = c :: rest := by
    cases known : text.reverse with
    | nil =>
        rw [known] at found
        cases found
    | cons d tail =>
        rw [known, after?] at found
        split at found
        · rename_i same
          cases found
          rw [same]
        · cases found
  refine ⟨rest.reverse, ?_⟩
  rw [← List.reverse_reverse text, turned, List.reverse_cons]

/-! ### Joining -/

@[simp] theorem joinWith_singleton (separator piece : Text) : joinWith separator [piece] = piece :=
  List.intercalate_singleton

@[simp] theorem joinWith_cons_cons (separator piece next : Text) (pieces : List Text) :
    joinWith separator (piece :: next :: pieces) =
      piece ++ separator ++ joinWith separator (next :: pieces) :=
  List.intercalate_cons_cons

theorem joinWith_append (separator piece : Text) (left right : List Text) (nonempty : left ≠ []) :
    joinWith separator (left ++ piece :: right) =
      joinWith separator left ++ separator ++ joinWith separator (piece :: right) := by
  induction left with
  | nil => exact absurd rfl nonempty
  | cons first left ih =>
      cases left with
      | nil => rw [List.singleton_append, joinWith_cons_cons, joinWith_singleton]
      | cons next left =>
          have later := ih (List.cons_ne_nil next left)
          rw [List.cons_append] at later
          rw [List.cons_append, List.cons_append, joinWith_cons_cons, later, joinWith_cons_cons]
          simp only [List.append_assoc]

/-- The first pieces of a text, joined again, are where the text starts. -/
theorem joinWith_part (separator : Text) (left right : List Text) (nonempty : left ≠ []) :
    joinWith separator left <+: joinWith separator (left ++ right) := by
  cases right with
  | nil => exact ⟨[], by rw [List.append_nil, List.append_nil]⟩
  | cons piece right =>
      rw [joinWith_append separator piece left right nonempty, List.append_assoc]
      exact List.prefix_append _ _

theorem joinWith_start (separator piece : Text) (pieces : List Text) :
    ∃ rest, joinWith separator (piece :: pieces) = piece ++ rest := by
  cases pieces with
  | nil => exact ⟨[], by simp⟩
  | cons next pieces => exact ⟨separator ++ joinWith separator (next :: pieces), by simp⟩

theorem joinWith_lead (separator lead first : Text) (rest : List Text) :
    joinWith separator ((lead ++ first) :: rest) = lead ++ joinWith separator (first :: rest) := by
  cases rest with
  | nil => simp
  | cons next rest => simp

theorem mem_joinWith (c : Char) (separator : Text) (pieces : List Text)
    (member : c ∈ joinWith separator pieces) : c ∈ separator ∨ ∃ piece ∈ pieces, c ∈ piece := by
  induction pieces with
  | nil => cases member
  | cons piece rest ih =>
      cases rest with
      | nil =>
          rw [joinWith_singleton] at member
          exact Or.inr ⟨piece, List.mem_cons_self, member⟩
      | cons next rest =>
          rw [joinWith_cons_cons, List.mem_append, List.mem_append] at member
          rcases member with (inPiece | inSeparator) | inRest
          · exact Or.inr ⟨piece, List.mem_cons_self, inPiece⟩
          · exact Or.inl inSeparator
          · rcases ih inRest with inSeparator | ⟨found, present, inFound⟩
            · exact Or.inl inSeparator
            · exact Or.inr ⟨found, List.mem_cons_of_mem piece present, inFound⟩

theorem joinWith_ne_nil (separator : Text) (piece : Text) (pieces : List Text) (nonempty : piece ≠ []) :
    joinWith separator (piece :: pieces) ≠ [] := by
  cases pieces with
  | nil =>
      simpa using nonempty
  | cons next rest =>
      simp [nonempty]

theorem endsFirm_joinWith (separator : Text) (pieces : List Text)
    (firm : ∀ piece ∈ pieces, piece ≠ [] ∧ EndsFirm piece) : EndsFirm (joinWith separator pieces) := by
  induction pieces with
  | nil => exact endsFirm_nil
  | cons piece rest ih =>
      cases rest with
      | nil =>
          simpa using (firm piece List.mem_cons_self).2
      | cons next rest =>
          rw [joinWith_cons_cons]
          apply endsFirm_append
          · exact joinWith_ne_nil separator next rest (firm next (by simp)).1
          · exact ih fun other member => firm other (List.mem_cons_of_mem piece member)

/-! ### Words -/

structure IsWord (word : Text) : Prop where
  nonempty : word ≠ []
  solid : ∀ c ∈ word, isBlank c = false

private theorem isWord_consHead (c : Char) (firm : isBlank c = false) (pieces : List Text)
    (found : ∀ word ∈ pieces, IsWord word) : ∀ word ∈ consHead c pieces, IsWord word := by
  cases pieces with
  | nil =>
      intro word member
      simp only [consHead, List.mem_singleton] at member
      subst member
      exact ⟨List.cons_ne_nil c [], by simpa using firm⟩
  | cons head tail =>
      intro word member
      simp only [consHead, List.mem_cons] at member
      rcases member with rfl | later
      · refine ⟨List.cons_ne_nil c head, ?_⟩
        intro d inWord
        rcases List.mem_cons.mp inWord with rfl | inHead
        · exact firm
        · exact (found head List.mem_cons_self).solid d inHead
      · exact found word (List.mem_cons_of_mem head later)

theorem isWord_of_mem_words (text : Text) : ∀ word ∈ words text, IsWord word := by
  induction text with
  | nil => simp [words]
  | cons c rest ih =>
      rw [words.eq_def]
      dsimp only
      split
      · exact ih
      · rename_i firm
        have firmC : isBlank c = false := by simpa using firm
        cases rest with
        | nil =>
            intro word member
            rw [List.mem_singleton] at member
            subst member
            exact ⟨List.cons_ne_nil c [], by simpa using firmC⟩
        | cons next tail =>
            dsimp only
            split
            · intro word member
              rcases List.mem_cons.mp member with rfl | later
              · exact ⟨List.cons_ne_nil c [], by simpa using firmC⟩
              · exact ih word later
            · exact isWord_consHead c firmC _ ih

theorem words_solid (word : Text) (isWord : IsWord word) (rest : Text) :
    words (word ++ ' ' :: rest) = word :: words rest := by
  obtain ⟨nonempty, solid⟩ := isWord
  induction word with
  | nil => exact absurd rfl nonempty
  | cons c tail ih =>
      have firm := solid c List.mem_cons_self
      cases tail with
      | nil =>
          have blank : isBlank ' ' = true := rfl
          simp [words, firm, blank]
      | cons next tail =>
          have firmNext := solid next (by simp)
          have later := ih (List.cons_ne_nil next tail)
            fun d member => solid d (List.mem_cons_of_mem c member)
          rw [List.cons_append] at later
          simp only [List.cons_append, words, firm, firmNext] at later ⊢
          simp only [Bool.false_eq_true, if_false] at later ⊢
          rw [later]
          rfl

theorem words_single (word : Text) (isWord : IsWord word) : words word = [word] := by
  obtain ⟨nonempty, solid⟩ := isWord
  induction word with
  | nil => exact absurd rfl nonempty
  | cons c tail ih =>
      have firm := solid c List.mem_cons_self
      cases tail with
      | nil => simp [words, firm]
      | cons next tail =>
          have firmNext := solid next (by simp)
          have later := ih (List.cons_ne_nil next tail)
            fun d member => solid d (List.mem_cons_of_mem c member)
          simp only [words, firm, firmNext, Bool.false_eq_true, if_false] at later ⊢
          rw [later]
          rfl

theorem words_joinWith (pieces : List Text) (isWord : ∀ word ∈ pieces, IsWord word) :
    words (joinWith [' '] pieces) = pieces := by
  induction pieces with
  | nil => rfl
  | cons word rest ih =>
      have later := ih fun other member => isWord other (List.mem_cons_of_mem word member)
      cases rest with
      | nil =>
          simpa using words_single word (isWord word List.mem_cons_self)
      | cons next rest =>
          rw [joinWith_cons_cons, List.append_assoc, List.singleton_append,
            words_solid word (isWord word List.mem_cons_self), later]

/-- A line in which blanks are collapsed: words separated by one space each. -/
structure IsCollapsed (line : Text) : Prop where
  nonempty : line ≠ []
  stable : collapse line = line

@[simp] theorem collapse_collapse (text : Text) : collapse (collapse text) = collapse text := by
  unfold collapse
  rw [words_joinWith (words text) (isWord_of_mem_words text)]

theorem isCollapsed_collapse (text : Text) (nonempty : collapse text ≠ []) :
    IsCollapsed (collapse text) :=
  ⟨nonempty, collapse_collapse text⟩

theorem IsCollapsed.mem {line : Text} (collapsed : IsCollapsed line) (c : Char) (member : c ∈ line) :
    c = ' ' ∨ isBlank c = false := by
  rw [← collapsed.stable] at member
  rcases mem_joinWith c [' '] (words line) member with space | ⟨word, present, inWord⟩
  · exact Or.inl (List.mem_singleton.mp space)
  · exact Or.inr ((isWord_of_mem_words line word present).solid c inWord)

theorem IsCollapsed.not_mem_of_blank {line : Text} (collapsed : IsCollapsed line) (c : Char)
    (blank : isBlank c = true) (notSpace : c ≠ ' ') : c ∉ line := by
  intro member
  rcases collapsed.mem c member with space | firm
  · exact notSpace space
  · rw [blank] at firm
    cases firm

theorem IsWord.endsFirm {word : Text} (isWord : IsWord word) : EndsFirm word :=
  fun c last => isWord.solid c (List.mem_of_getLast? last)

theorem IsWord.no_space {word : Text} (isWord : IsWord word) : ' ' ∉ word := by
  intro space
  cases isWord.solid ' ' space

theorem endsFirm_words (words : List Text) (isWord : ∀ word ∈ words, IsWord word) :
    EndsFirm (joinWith [' '] words) :=
  endsFirm_joinWith [' '] words fun word member => ⟨(isWord word member).nonempty, (isWord word member).endsFirm⟩

theorem IsCollapsed.endsFirm {line : Text} (collapsed : IsCollapsed line) : EndsFirm line := by
  rw [← collapsed.stable]
  exact endsFirm_words _ (isWord_of_mem_words line)

@[simp] theorem collapse_blank (text : Text) : collapse (' ' :: text) = collapse text := by
  have blank : isBlank ' ' = true := rfl
  simp [collapse, words, blank]

/-! ### Lines -/

theorem lines_lineFeed (line rest : Text) (unbroken : '\n' ∉ line) (noReturn : line.getLast? ≠ some '\r') :
    lines (line ++ '\n' :: rest) = line :: lines rest := by
  induction line with
  | nil => rfl
  | cons c tail ih =>
      have notFeed : c ≠ '\n' := fun same => unbroken (by rw [same]; exact List.mem_cons_self)
      cases tail with
      | nil =>
          have notReturn : c ≠ '\r' := fun same => noReturn (by rw [same]; rfl)
          rw [List.cons_append, lines.eq_4 c _ (fun same => notFeed same)
            (fun _ same _ => notReturn same)]
          rfl
      | cons next tail =>
          have notFeedNext : next ≠ '\n' := fun same => unbroken (by rw [same]; simp)
          have ordinary := lines.eq_4 c (next :: tail ++ '\n' :: rest) (fun same => notFeed same)
            (fun _ _ split => notFeedNext (List.cons.inj split).1)
          rw [List.cons_append, ordinary, ih]
          · rfl
          · exact fun member => unbroken (List.mem_cons_of_mem c member)
          · rw [← List.getLast?_cons_cons (a := c)]
            exact noReturn

theorem lines_single (line : Text) (unbroken : '\n' ∉ line) (nonempty : line ≠ []) :
    lines line = [line] := by
  induction line with
  | nil => exact absurd rfl nonempty
  | cons c tail ih =>
      have notFeed : c ≠ '\n' := fun same => unbroken (by rw [same]; exact List.mem_cons_self)
      have unbrokenTail : '\n' ∉ tail := fun member => unbroken (List.mem_cons_of_mem c member)
      rw [lines.eq_4 c tail (fun same => notFeed same)
        (fun _ _ split => unbrokenTail (by rw [split]; exact List.mem_cons_self))]
      cases tail with
      | nil => rfl
      | cons next tail =>
          rw [ih unbrokenTail (List.cons_ne_nil next tail)]
          rfl

theorem lines_joinWith (pieces : List Text)
    (isLine : ∀ line ∈ pieces, line ≠ [] ∧ '\n' ∉ line ∧ line.getLast? ≠ some '\r') :
    lines (joinWith ['\n'] pieces) = pieces := by
  induction pieces with
  | nil => rfl
  | cons line rest ih =>
      obtain ⟨nonempty, unbroken, noReturn⟩ := isLine line List.mem_cons_self
      have later := ih fun other member => isLine other (List.mem_cons_of_mem line member)
      cases rest with
      | nil =>
          simpa using lines_single line unbroken nonempty
      | cons next rest =>
          rw [joinWith_cons_cons, List.append_assoc, List.singleton_append,
            lines_lineFeed line _ unbroken noReturn, later]

theorem not_mem_consHead (mark c : Char) (differs : c ≠ mark) (pieces : List Text)
    (absent : ∀ piece ∈ pieces, mark ∉ piece) : ∀ piece ∈ consHead c pieces, mark ∉ piece := by
  cases pieces with
  | nil =>
      intro piece member
      simp only [consHead, List.mem_singleton] at member
      subst member
      simpa using differs.symm
  | cons head tail =>
      intro piece member
      simp only [consHead, List.mem_cons] at member
      rcases member with rfl | later
      · intro inside
        rcases List.mem_cons.mp inside with same | inHead
        · exact differs same.symm
        · exact absent head List.mem_cons_self inHead
      · exact absent piece (List.mem_cons_of_mem head later)

theorem unbroken_of_mem_lines (text : Text) : ∀ line ∈ lines text, '\n' ∉ line := by
  fun_induction lines text with
  | case1 => simp
  | case2 rest ih => simpa using ih
  | case3 rest ih => simpa using ih
  | case4 c rest notFeed _ ih => exact not_mem_consHead '\n' c (fun same => notFeed same) _ ih

theorem not_mem_of_mem_splitOn (separator : Char) (text : Text) : ∀ piece ∈ splitOn separator text, separator ∉ piece := by
  induction text with
  | nil =>
      intro piece member
      rw [List.mem_singleton.mp member]
      exact List.not_mem_nil
  | cons c text ih =>
      rw [splitOn]
      split
      · intro piece member
        rcases List.mem_cons.mp member with rfl | later
        · exact List.not_mem_nil
        · exact ih piece later
      · rename_i differs
        exact not_mem_consHead separator c differs _ ih

/-! ### Pieces of a text -/

theorem isInfix_of_pieces (text : Text)
    (pieces : ∀ head tail, lines text = head :: tail → head <+: text ∧ ∀ line ∈ tail, line <:+: text) (line : Text)
    (member : line ∈ lines text) : line <:+: text := by
  cases known : lines text with
  | nil =>
      rw [known] at member
      cases member
  | cons head tail =>
      obtain ⟨front, later⟩ := pieces head tail known
      rw [known] at member
      rcases List.mem_cons.mp member with rfl | inside
      · exact front.isInfix
      · exact later line inside

theorem lines_pieces (text : Text) :
    ∀ head tail, lines text = head :: tail → head <+: text ∧ ∀ line ∈ tail, line <:+: text := by
  fun_induction lines text with
  | case1 =>
      intro head tail known
      cases known
  | case2 rest ih =>
      intro head tail known
      obtain ⟨rfl, rfl⟩ := List.cons.inj known
      refine ⟨⟨_, rfl⟩, fun line member => ?_⟩
      exact (isInfix_of_pieces rest ih line member).trans (List.suffix_cons _ rest).isInfix
  | case3 rest ih =>
      intro head tail known
      obtain ⟨rfl, rfl⟩ := List.cons.inj known
      refine ⟨⟨_, rfl⟩, fun line member => ?_⟩
      have behind : rest <:+ '\r' :: '\n' :: rest := (List.suffix_cons _ rest).trans (List.suffix_cons _ _)
      exact (isInfix_of_pieces rest ih line member).trans behind.isInfix
  | case4 c rest _ _ ih =>
      intro head tail known
      cases inner : lines rest with
      | nil =>
          rw [inner] at known
          obtain ⟨rfl, rfl⟩ := List.cons.inj known
          refine ⟨?_, fun line member => absurd member List.not_mem_nil⟩
          exact ⟨rest, rfl⟩
      | cons first others =>
          obtain ⟨front, later⟩ := ih first others inner
          rw [inner] at known
          obtain ⟨rfl, rfl⟩ := List.cons.inj known
          exact ⟨List.cons_prefix_cons.mpr ⟨rfl, front⟩,
            fun line member => (later line member).trans (List.suffix_cons c rest).isInfix⟩

theorem infix_of_mem_lines (text line : Text) (member : line ∈ lines text) : line <:+: text :=
  isInfix_of_pieces text (lines_pieces text) line member

theorem words_cons (c : Char) (rest : Text) (solid : isBlank c = false) :
    (∃ next tail, rest = next :: tail ∧ isBlank next = false ∧ words (c :: rest) = consHead c (words rest)) ∨
      words (c :: rest) = [c] :: words rest := by
  cases rest with
  | nil => exact .inr (by simp [words, solid])
  | cons next tail =>
      cases blank : isBlank next with
      | true => exact .inr (by simp [words, solid, blank])
      | false => exact .inl ⟨next, tail, rfl, blank, by simp [words, solid, blank]⟩

theorem words_blank (c : Char) (rest : Text) (blank : isBlank c = true) : words (c :: rest) = words rest := by
  cases rest <;> simp [words, blank]

theorem words_pieces (text : Text) :
    (∀ word ∈ words text, word <:+: text) ∧ ∀ c rest, text = c :: rest → isBlank c = false →
      ∃ head tail, words text = head :: tail ∧ head <+: text := by
  induction text with
  | nil => exact ⟨fun word member => absurd member List.not_mem_nil, fun c rest none => by cases none⟩
  | cons c text ih =>
      obtain ⟨pieces, first⟩ := ih
      have longer (word : Text) (inside : word <:+: text) : word <:+: c :: text :=
        inside.trans (List.suffix_cons c text).isInfix
      cases blank : isBlank c with
      | true =>
          refine ⟨fun word member => ?_, fun d rest same solid => ?_⟩
          · rw [words_blank c text blank] at member
            exact longer word (pieces word member)
          · obtain ⟨rfl, _⟩ := List.cons.inj same
            rw [blank] at solid
            cases solid
      | false =>
          rcases words_cons c text blank with ⟨next, tail, whole, solid, joined⟩ | alone
          · obtain ⟨head, others, known, front⟩ := first next tail whole solid
            rw [known] at joined pieces
            have start : c :: head <+: c :: text := List.cons_prefix_cons.mpr ⟨rfl, front⟩
            refine ⟨fun word member => ?_, fun d rest _ _ => ⟨c :: head, others, joined, start⟩⟩
            rw [joined] at member
            rcases List.mem_cons.mp member with rfl | inside
            · exact start.isInfix
            · exact longer word (pieces word (List.mem_cons_of_mem head inside))
          · have start : [c] <+: c :: text := ⟨text, rfl⟩
            refine ⟨fun word member => ?_, fun d rest _ _ => ⟨[c], words text, alone, start⟩⟩
            rw [alone] at member
            rcases List.mem_cons.mp member with rfl | inside
            · exact start.isInfix
            · exact longer word (pieces word inside)

theorem trimStart_suffix (text : Text) : trimStart text <:+ text :=
  List.dropWhile_suffix isBlank

theorem trimEnd_part (text : Text) : trimEnd text <+: text := by
  have behind : text.reverse.dropWhile isBlank <:+ text.reverse := List.dropWhile_suffix isBlank
  have front := List.reverse_prefix.mpr behind
  rw [List.reverse_reverse] at front
  exact front

theorem collapse_ne_nil (text : Text) (c : Char) (member : c ∈ text) (firm : isBlank c = false) : collapse text ≠ [] := by
  have found : words text ≠ [] := by
    induction text with
    | nil => cases member
    | cons d text ih =>
        cases blank : isBlank d with
        | true =>
            rw [words_blank d text blank]
            rcases List.mem_cons.mp member with rfl | inside
            · rw [firm] at blank
              cases blank
            · exact ih inside
        | false =>
            obtain ⟨head, tail, known, _⟩ := (words_pieces (d :: text)).2 d text rfl blank
            rw [known]
            exact List.cons_ne_nil head tail
  cases known : words text with
  | nil => exact absurd known found
  | cons head tail =>
      have isWord := isWord_of_mem_words text head (by rw [known]; exact List.mem_cons_self)
      rw [collapse, known]
      exact joinWith_ne_nil [' '] head tail isWord.nonempty

theorem consHead_append (c : Char) (head : Text) (left right : List Text) :
    consHead c (head :: left ++ right) = consHead c (head :: left) ++ right := rfl

theorem words_split (mark : Char) (left right : Text) (blankMark : isBlank mark = true) :
    words (left ++ mark :: right) = words left ++ words right := by
  induction left with
  | nil => exact words_blank mark right blankMark
  | cons c left ih =>
      cases blank : isBlank c with
      | true => rw [List.cons_append, words_blank c _ blank, words_blank c _ blank, ih]
      | false =>
          have apart (next : Char) (rest : Text) (inner : isBlank next = true) :
              words (c :: next :: rest) = [c] :: words (next :: rest) := by
            simp [words, blank, inner]
          cases left with
          | nil =>
              have isWord : IsWord [c] := ⟨List.cons_ne_nil c [], by simpa using blank⟩
              rw [List.singleton_append, apart mark right blankMark, words_blank mark right blankMark,
                words_single [c] isWord, List.singleton_append]
          | cons next left =>
              rw [List.cons_append] at ih ⊢
              cases inner : isBlank next with
              | true => rw [List.cons_append, apart next _ inner, apart next _ inner, ih, List.cons_append]
              | false =>
                  have joined (rest : Text) : words (c :: next :: rest) = consHead c (words (next :: rest)) := by
                    simp [words, blank, inner]
                  obtain ⟨head, tail, known, _⟩ := (words_pieces (next :: left)).2 next left rfl inner
                  rw [List.cons_append, joined, joined, ih, known, consHead_append]

/-- A text that starts with letters starts with one word that they start. -/
theorem words_lead (word text : Text) (isWord : IsWord word) :
    ∃ more rest, words (word ++ text) = (word ++ more) :: rest := by
  obtain ⟨nonempty, solid⟩ := isWord
  induction word with
  | nil => exact absurd rfl nonempty
  | cons c word ih =>
      rcases words_cons c (word ++ text) (solid c List.mem_cons_self) with ⟨next, tail, whole, firm, joined⟩ | apart
      · cases word with
        | nil =>
            obtain ⟨head, rest, known, _⟩ := (words_pieces (next :: tail)).2 next tail rfl firm
            rw [← whole] at known
            exact ⟨head, rest, by rw [List.cons_append, joined, known]; rfl⟩
        | cons d word =>
            obtain ⟨more, rest, known⟩ := ih (List.cons_ne_nil d word) fun e member => solid e (List.mem_cons_of_mem c member)
            exact ⟨more, rest, by rw [List.cons_append, joined, known]; rfl⟩
      · cases word with
        | nil => exact ⟨[], _, apart⟩
        | cons d word =>
            have firm := solid d (List.mem_cons_of_mem c List.mem_cons_self)
            obtain ⟨more, rest, known⟩ := ih (List.cons_ne_nil d word) fun e member => solid e (List.mem_cons_of_mem c member)
            have joined : words (c :: (d :: word ++ text)) = consHead c (words (d :: word ++ text)) := by
              simp [words, solid c List.mem_cons_self, firm]
            exact ⟨more, rest, by rw [List.cons_append, joined, known]; rfl⟩

theorem splitOn_of_not_mem (separator : Char) (text : Text) (absent : separator ∉ text) :
    splitOn separator text = [text] := by
  induction text with
  | nil => rfl
  | cons c text ih =>
      have notHere : c ≠ separator := fun same => absent (by rw [same]; exact List.mem_cons_self)
      rw [splitOn, if_neg notHere, ih fun member => absent (List.mem_cons_of_mem c member)]
      rfl

theorem splitOn_ne_nil (separator : Char) (text : Text) : splitOn separator text ≠ [] := by
  cases text with
  | nil => exact List.cons_ne_nil _ _
  | cons c text =>
      rw [splitOn]
      split
      · exact List.cons_ne_nil _ _
      · cases splitOn separator text <;> exact List.cons_ne_nil _ _

@[simp] theorem splitOn_append (separator : Char) (left right : Text) :
    splitOn separator (left ++ separator :: right) = splitOn separator left ++ splitOn separator right := by
  induction left with
  | nil => simp [splitOn]
  | cons c left ih =>
      rw [List.cons_append, splitOn, splitOn]
      split
      · rw [ih, List.cons_append]
      · rw [ih]
        cases pieces : splitOn separator left with
        | nil => exact absurd pieces (splitOn_ne_nil separator left)
        | cons head tail => rw [consHead_append]

theorem splitOn_joinWith (separator : Char) (pieces : List Text) (nonempty : pieces ≠ [])
    (apart : ∀ piece ∈ pieces, separator ∉ piece) : splitOn separator (joinWith [separator] pieces) = pieces := by
  induction pieces with
  | nil => exact absurd rfl nonempty
  | cons piece pieces ih =>
      have alone := splitOn_of_not_mem separator piece (apart piece List.mem_cons_self)
      cases pieces with
      | nil => rw [joinWith_singleton, alone]
      | cons next pieces =>
          have later := ih (List.cons_ne_nil _ _) fun other member => apart other (List.mem_cons_of_mem piece member)
          rw [joinWith_cons_cons, List.append_assoc, List.singleton_append, splitOn_append, alone, later,
            List.singleton_append]

@[simp] theorem joinWith_splitOn (separator : Char) (text : Text) :
    joinWith [separator] (splitOn separator text) = text := by
  induction text with
  | nil => rfl
  | cons c text ih =>
      obtain ⟨first, rest, pieces⟩ := List.exists_cons_of_ne_nil (splitOn_ne_nil separator text)
      rw [pieces] at ih
      rw [splitOn, pieces]
      split
      · rename_i same
        rw [joinWith_cons_cons, ih, same]
        rfl
      · rw [consHead]
        exact (joinWith_lead [separator] [c] first rest).trans (by rw [ih]; rfl)

theorem length_splitOn (separator : Char) (text : Text) : (splitOn separator text).length ≤ text.length + 1 := by
  induction text with
  | nil => exact Nat.le_refl 1
  | cons c text ih =>
      obtain ⟨first, rest, pieces⟩ := List.exists_cons_of_ne_nil (splitOn_ne_nil separator text)
      rw [pieces, List.length_cons] at ih
      rw [splitOn, pieces]
      split
      · simp only [List.length_cons]
        omega
      · simp only [consHead, List.length_cons]
        omega

/-- The words of a collapsed text are what its spaces separate. -/
theorem splitOn_collapse (text : Text) (nonempty : words text ≠ []) : splitOn ' ' (collapse text) = words text := by
  apply splitOn_joinWith ' ' _ nonempty
  exact fun word member => (isWord_of_mem_words text word member).no_space

/-! ### Collapsed lines -/

theorem isCollapsed_of_isWord {word : Text} (isWord : IsWord word) : IsCollapsed word :=
  ⟨isWord.nonempty, by rw [collapse, words_single word isWord, joinWith_singleton]⟩

theorem isCollapsed_joinWith (pieces : List Text) (isWord : ∀ word ∈ pieces, IsWord word) (nonempty : pieces ≠ []) :
    IsCollapsed (joinWith [' '] pieces) := by
  cases pieces with
  | nil => exact absurd rfl nonempty
  | cons piece rest =>
      refine ⟨joinWith_ne_nil [' '] piece rest (isWord piece List.mem_cons_self).nonempty, ?_⟩
      rw [collapse, words_joinWith _ isWord]

theorem IsCollapsed.words_ne_nil {line : Text} (collapsed : IsCollapsed line) : words line ≠ [] := by
  intro empty
  apply collapsed.nonempty
  rw [← collapsed.stable, collapse, empty]
  rfl

theorem IsCollapsed.head {line : Text} (collapsed : IsCollapsed line) :
    ∃ c rest, line = c :: rest ∧ isBlank c = false := by
  cases known : words line with
  | nil => exact absurd known collapsed.words_ne_nil
  | cons word others =>
      have isWord := isWord_of_mem_words line word (by rw [known]; exact List.mem_cons_self)
      obtain ⟨rest, starts⟩ := joinWith_start [' '] word others
      have whole : line = word ++ rest := by rw [← starts, ← known]; exact collapsed.stable.symm
      cases word with
      | nil => exact absurd rfl isWord.nonempty
      | cons c word => exact ⟨c, word ++ rest, whole, isWord.solid c List.mem_cons_self⟩

theorem IsCollapsed.solid_append {line : Text} (collapsed : IsCollapsed line) (lead : Text)
    (solid : ∀ c ∈ lead, isBlank c = false) : IsCollapsed (lead ++ line) := by
  induction lead with
  | nil => exact collapsed
  | cons c lead ih =>
      have inner := ih fun d member => solid d (List.mem_cons_of_mem c member)
      obtain ⟨next, rest, whole, firm⟩ := inner.head
      have joined : words (c :: (lead ++ line)) = consHead c (words (lead ++ line)) := by
        rw [whole]
        simp [words, solid c List.mem_cons_self, firm]
      refine ⟨List.cons_ne_nil _ _, ?_⟩
      rw [List.cons_append, collapse, joined]
      cases known : words (lead ++ line) with
      | nil => exact absurd known inner.words_ne_nil
      | cons head tail =>
          have rejoined : joinWith [' '] (consHead c (head :: tail)) = c :: joinWith [' '] (head :: tail) := by
            cases tail with
            | nil => simp only [consHead, joinWith_singleton]
            | cons second tail => simp only [consHead, joinWith_cons_cons, List.cons_append]
          rw [rejoined, ← known]
          exact congrArg (c :: ·) inner.stable

theorem IsCollapsed.after_word {line : Text} (collapsed : IsCollapsed line) (word : Text) (isWord : IsWord word) :
    IsCollapsed (word ++ ' ' :: line) := by
  refine ⟨List.append_ne_nil_of_right_ne_nil _ (List.cons_ne_nil _ _), ?_⟩
  rw [collapse, words_solid word isWord]
  cases known : words line with
  | nil => exact absurd known collapsed.words_ne_nil
  | cons head tail =>
      rw [joinWith_cons_cons, ← known, List.append_assoc]
      exact congrArg (word ++ ' ' :: ·) collapsed.stable

theorem IsCollapsed.single_spaces {line : Text} (collapsed : IsCollapsed line) : ¬ [' ', ' '] <:+: line := by
  rintro ⟨lead, tail, whole⟩
  have gap : [] ∈ splitOn ' ' line := by
    rw [← whole, List.append_assoc]
    change [] ∈ splitOn ' ' (lead ++ ' ' :: ' ' :: tail)
    rw [splitOn_append, splitOn, if_pos rfl]
    exact List.mem_append_right _ List.mem_cons_self
  rw [← collapsed.stable, splitOn_collapse line collapsed.words_ne_nil] at gap
  exact (isWord_of_mem_words line [] gap).nonempty rfl

/-! ### First lines -/

/-- A first line without line end goes on with what follows it. -/
theorem lines_lead (line rest : Text) (unbroken : '\n' ∉ line) (nonempty : line ≠ []) (firm : EndsFirm line) :
    ∃ more others, more <+: rest ∧ lines (line ++ rest) = (line ++ more) :: others := by
  induction line with
  | nil => exact absurd rfl nonempty
  | cons c line ih =>
      have notFeed : c ≠ '\n' := fun same => unbroken (by rw [same]; exact List.mem_cons_self)
      have later : '\n' ∉ line := fun member => unbroken (List.mem_cons_of_mem c member)
      cases line with
      | nil =>
          have notReturn : c ≠ '\r' := by
            rintro rfl
            have solid := firm '\r' rfl
            cases solid
          rw [List.singleton_append, lines.eq_4 c rest (fun same => notFeed same) (fun _ same _ => notReturn same)]
          cases known : lines rest with
          | nil => exact ⟨[], [], ⟨_, rfl⟩, rfl⟩
          | cons head tail => exact ⟨head, tail, (lines_pieces rest head tail known).1, rfl⟩
      | cons next line =>
          obtain ⟨more, others, part, known⟩ := ih later (List.cons_ne_nil next line) firm
          refine ⟨more, others, part, ?_⟩
          have ordinary := lines.eq_4 c (next :: line ++ rest) (fun same => notFeed same)
            (fun _ _ split => later (by rw [(List.cons.inj split).1]; exact List.mem_cons_self))
          rw [List.cons_append, ordinary, known]
          rfl

/-- Only the first line depends on a lead without blanks. -/
theorem tail_lines_solid (lead rest : Text) (solid : ∀ c ∈ lead, isBlank c = false) :
    (lines (lead ++ rest)).tail = (lines rest).tail := by
  induction lead with
  | nil => rfl
  | cons c lead ih =>
      have firm := solid c List.mem_cons_self
      have notFeed : c ≠ '\n' := by
        rintro rfl
        cases firm
      have notReturn : c ≠ '\r' := by
        rintro rfl
        cases firm
      rw [List.cons_append, lines.eq_4 c _ (fun same => notFeed same) (fun _ same _ => notReturn same),
        ← ih fun d member => solid d (List.mem_cons_of_mem c member)]
      cases lines (lead ++ rest) with
      | nil => rfl
      | cons head tail => rfl

end MemberDoc.Text
