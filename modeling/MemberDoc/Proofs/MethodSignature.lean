import MemberDoc.DocBlock.Tag
import MemberDoc.Proofs.TextLines
import MemberDoc.Proofs.TextSearch

set_option autoImplicit false

/-! The signature in a method tag. A line of words is cut at its first parenthesis outside brackets, and the method is
named by the last word before it, where a leading `static` does not count. -/

namespace MemberDoc.Text

/-- What is known of the words of a text to which more is added: some are complete, and a stem goes on. -/
structure IsCut (text : Text) (settled : List Text) (stem : Text) : Prop where
  isWord : ∀ word ∈ settled, IsWord word
  solid : ∀ c ∈ stem, isBlank c = false
  append : ∀ rest, words (text ++ rest) = settled ++ words (stem ++ rest)

theorem IsCut.words_eq {text : Text} {settled : List Text} {stem : Text} (cut : IsCut text settled stem) :
    words text = settled ++ words stem := by
  have whole := cut.append []
  rwa [List.append_nil, List.append_nil] at whole

theorem isCut_split (lead : Text) (mark : Char) (stem : Text) (blank : isBlank mark = true)
    (solid : ∀ c ∈ stem, isBlank c = false) : IsCut (lead ++ mark :: stem) (words lead) stem where
  isWord := isWord_of_mem_words lead
  solid := solid
  append rest := by rw [List.append_assoc, List.cons_append, words_split mark lead _ blank]

private theorem solid_or_split (text : Text) :
    (∀ c ∈ text, isBlank c = false) ∨
      ∃ lead mark stem, text = lead ++ mark :: stem ∧ isBlank mark = true ∧ ∀ c ∈ stem, isBlank c = false := by
  induction text with
  | nil => exact Or.inl fun c member => absurd member List.not_mem_nil
  | cons c text ih =>
      rcases ih with solid | ⟨lead, mark, stem, whole, blank, solid⟩
      · cases firm : isBlank c with
        | true => exact Or.inr ⟨[], c, text, rfl, firm, solid⟩
        | false =>
            refine Or.inl fun d member => ?_
            rcases List.mem_cons.mp member with rfl | inside
            · exact firm
            · exact solid d inside
      · exact Or.inr ⟨c :: lead, mark, stem, by rw [whole, List.cons_append], blank, solid⟩

theorem exists_cut (text : Text) : ∃ settled stem, IsCut text settled stem := by
  rcases solid_or_split text with solid | ⟨lead, mark, stem, rfl, blank, solid⟩
  · exact ⟨[], text, fun word member => absurd member List.not_mem_nil, solid, fun rest => rfl⟩
  · exact ⟨words lead, stem, isCut_split lead mark stem blank solid⟩

theorem words_stem (stem : Text) (solid : ∀ c ∈ stem, isBlank c = false) :
    words stem = if stem = [] then [] else [stem] := by
  split
  · rename_i empty
    rw [empty]
    rfl
  · rename_i nonempty
    exact words_single stem ⟨nonempty, solid⟩

theorem isWord_parenthesis (stem : Text) (solid : ∀ c ∈ stem, isBlank c = false) : IsWord (stem ++ ['(']) := by
  refine ⟨List.append_ne_nil_of_right_ne_nil _ (List.cons_ne_nil _ _), fun c member => ?_⟩
  rcases List.mem_append.mp member with inStem | isMark
  · exact solid c inStem
  · rw [List.mem_singleton.mp isMark]
    rfl

end MemberDoc.Text

namespace MemberDoc.Tag

/-- How deep a text leaves one in brackets, if no parenthesis opens outside of them. -/
def bracketDepth? (depth : Nat) : Text → Option Nat
  | [] => some depth
  | c :: rest =>
      if opensBracket c then bracketDepth? (depth + 1) rest
      else if closesBracket c then bracketDepth? (depth - 1) rest
      else if c = '(' ∧ depth = 0 then none
      else bracketDepth? depth rest

theorem bracketDepth_append (depth : Nat) (left right : Text) :
    bracketDepth? depth (left ++ right) = (bracketDepth? depth left).bind (bracketDepth? · right) := by
  fun_induction bracketDepth? depth left with
  | case1 => rfl
  | case2 depth c left opening ih => rw [List.cons_append, bracketDepth?, if_pos opening, ih]
  | case3 depth c left opening closing ih =>
      rw [List.cons_append, bracketDepth?, if_neg opening, if_pos closing, ih]
  | case4 depth c left opening closing stop =>
      rw [List.cons_append, bracketDepth?, if_neg opening, if_neg closing, if_pos stop]
      rfl
  | case5 depth c left opening closing stop ih =>
      rw [List.cons_append, bracketDepth?, if_neg opening, if_neg closing, if_neg stop, ih]

theorem headOf_append (depth inner : Nat) (left right : Text) (nested : bracketDepth? depth left = some inner) :
    headOf? depth (left ++ right) = (headOf? inner right).map (left ++ ·) := by
  fun_induction bracketDepth? depth left with
  | case1 =>
      cases nested
      simp
  | case2 depth c left opening ih =>
      rw [List.cons_append, headOf?, if_pos opening, ih nested, Option.map_map]
      rfl
  | case3 depth c left opening closing ih =>
      rw [List.cons_append, headOf?, if_neg opening, if_pos closing, ih nested, Option.map_map]
      rfl
  | case4 depth c left opening closing stop => cases nested
  | case5 depth c left opening closing stop ih =>
      rw [List.cons_append, headOf?, if_neg opening, if_neg closing, if_neg stop, ih nested, Option.map_map]
      rfl

/-- The walk over a text stops at its first parenthesis outside brackets. -/
theorem bracketDepth_eq_none (depth : Nat) (text : Text) (stops : bracketDepth? depth text = none) :
    ∃ lead rest, text = lead ++ '(' :: rest ∧ bracketDepth? depth lead = some 0 := by
  fun_induction bracketDepth? depth text with
  | case1 => cases stops
  | case2 depth c text opening ih =>
      obtain ⟨lead, rest, whole, outside⟩ := ih stops
      exact ⟨c :: lead, rest, by rw [whole]; rfl, by rw [bracketDepth?, if_pos opening, outside]⟩
  | case3 depth c text opening closing ih =>
      obtain ⟨lead, rest, whole, outside⟩ := ih stops
      exact ⟨c :: lead, rest, by rw [whole]; rfl, by rw [bracketDepth?, if_neg opening, if_pos closing, outside]⟩
  | case4 depth c text opening closing stop =>
      obtain ⟨rfl, rfl⟩ := stop
      exact ⟨[], text, rfl, rfl⟩
  | case5 depth c text opening closing stop ih =>
      obtain ⟨lead, rest, whole, outside⟩ := ih stops
      exact ⟨c :: lead, rest, by rw [whole]; rfl,
        by rw [bracketDepth?, if_neg opening, if_neg closing, if_neg stop, outside]⟩

def brackets : Text :=
  ['<', '\x7b', '[', '>', '\x7d', ']', '(']

theorem bracketDepth_skip (depth : Nat) (c : Char) (rest : Text) (absent : c ∉ brackets) :
    bracketDepth? depth (c :: rest) = bracketDepth? depth rest := by
  simp only [brackets, List.mem_cons, List.not_mem_nil, or_false, not_or] at absent
  simp [bracketDepth?, opensBracket, closesBracket, absent]

theorem bracketDepth_blank (depth : Nat) (c : Char) (rest : Text) (blank : Text.isBlank c = true) :
    bracketDepth? depth (c :: rest) = bracketDepth? depth rest := by
  have solid : ∀ d ∈ brackets, Text.isBlank d = false := Text.forall_of_all (by decide)
  apply bracketDepth_skip
  intro member
  rw [solid c member] at blank
  cases blank

private theorem bracketDepth_joinWith (depth : Nat) (pieces : List Text) :
    bracketDepth? depth (Text.joinWith [' '] pieces) = bracketDepth? depth pieces.flatten := by
  induction pieces generalizing depth with
  | nil => rfl
  | cons piece pieces ih =>
      cases pieces with
      | nil => rw [Text.joinWith_singleton, List.flatten_singleton]
      | cons next pieces =>
          have later (inner : Nat) : bracketDepth? inner (' ' :: Text.joinWith [' '] (next :: pieces)) =
              bracketDepth? inner (next :: pieces).flatten := by
            rw [bracketDepth_blank inner ' ' _ rfl, ih]
          rw [Text.joinWith_cons_cons, List.append_assoc, List.singleton_append, bracketDepth_append, List.flatten_cons,
            bracketDepth_append]
          simp only [later]

@[simp] theorem flatten_consHead (c : Char) (pieces : List Text) :
    (Text.consHead c pieces).flatten = c :: pieces.flatten := by
  cases pieces with
  | nil => rfl
  | cons head tail => rfl

/-- Brackets are counted without regard to blanks. -/
theorem bracketDepth_words (depth : Nat) (text : Text) :
    bracketDepth? depth (Text.words text).flatten = bracketDepth? depth text := by
  induction text generalizing depth with
  | nil => rfl
  | cons c text ih =>
      cases blank : Text.isBlank c with
      | true => rw [Text.words_blank c text blank, ih, bracketDepth_blank depth c text blank]
      | false =>
          have step : (Text.words (c :: text)).flatten = c :: (Text.words text).flatten := by
            rcases Text.words_cons c text blank with ⟨_, _, _, _, joined⟩ | apart
            · rw [joined, flatten_consHead]
            · rw [apart, List.flatten_cons, List.singleton_append]
          rw [step]
          simp only [bracketDepth?, ih]

private theorem headOf_parenthesis (head rest : Text) (outside : bracketDepth? 0 head = some 0) :
    headOf? 0 (head ++ '(' :: rest) = some head := by
  have stop : headOf? 0 ('(' :: rest) = some [] := rfl
  rw [headOf_append 0 0 head _ outside, stop, Option.map_some, List.append_nil]

private theorem lastWord_joinWith (words : List Text) (last : Text) (isWord : Text.IsWord last) :
    lastWord (Text.joinWith [' '] (words ++ [last])) = last := by
  cases words with
  | nil => rw [List.nil_append, Text.joinWith_singleton, lastWord, Text.splitLast_of_not_mem _ _ isWord.no_space]
  | cons word words =>
      rw [Text.joinWith_append _ _ _ _ (List.cons_ne_nil word words), Text.joinWith_singleton, lastWord, List.append_assoc,
        List.singleton_append, Text.splitLast_of_last _ _ _ isWord.no_space]

private theorem lastWord_trimEnd (words : List Text) (stem : Text) (isWord : ∀ word ∈ words, Text.IsWord word)
    (solid : ∀ c ∈ stem, Text.isBlank c = false) :
    lastWord (Text.trimEnd (Text.joinWith [' '] (words ++ [stem]))) = (words ++ Text.words stem).getLast?.getD [] := by
  rw [Text.words_stem stem solid]
  split
  · rename_i empty
    subst empty
    -- The line ends with the space behind the last word, and trimming takes that off.
    rw [List.append_nil]
    rcases List.eq_nil_or_concat words with rfl | ⟨init, last, rfl⟩
    · rfl
    · rw [List.concat_eq_append] at isWord ⊢
      have nonempty : init ++ [last] ≠ [] := List.append_ne_nil_of_right_ne_nil _ (List.cons_ne_nil _ _)
      have isLast : Text.IsWord last := isWord last (List.mem_append_right init (List.mem_singleton_self last))
      have behind : Text.trimEnd ([' '] ++ []) = [] := rfl
      rw [Text.joinWith_append _ _ _ _ nonempty, Text.joinWith_singleton, List.append_assoc,
        Text.trimEnd_append _ _ (Text.endsFirm_words _ isWord), behind, List.append_nil, lastWord_joinWith init last isLast,
        List.getLast?_concat]
      rfl
  · rename_i nonempty
    have isStem : Text.IsWord stem := ⟨nonempty, solid⟩
    have firm : Text.EndsFirm (Text.joinWith [' '] (words ++ [stem])) := by
      apply Text.endsFirm_words
      intro word member
      rcases List.mem_append.mp member with inWords | isLast
      · exact isWord word inWords
      · rw [List.mem_singleton.mp isLast]
        exact isStem
    rw [Text.trimEnd_of_endsFirm _ firm, lastWord_joinWith words stem isStem, List.getLast?_concat]
    rfl

private theorem after_static (word : Text) (words : List Text) (solid : ' ' ∉ word) :
    Text.after? "static ".toList (Text.joinWith [' '] (word :: words)) =
      if word = "static".toList ∧ words ≠ [] then some (Text.joinWith [' '] words) else none := by
  have reads (rest : Text) : Text.after? "static ".toList (Text.joinWith [' '] (word :: words)) = some rest ↔
      Text.joinWith [' '] (word :: words) = "static".toList ++ ' ' :: rest :=
    Text.after_eq_some_iff "static ".toList _ rest
  cases words with
  | nil =>
      rw [if_neg fun both => both.2 rfl, Option.eq_none_iff_forall_ne_some]
      intro rest found
      rw [reads, Text.joinWith_singleton] at found
      rw [found] at solid
      exact solid (List.mem_append_right _ List.mem_cons_self)
  | cons next words =>
      split
      · rename_i both
        rw [reads, Text.joinWith_cons_cons, both.1, List.append_assoc, List.singleton_append]
      · rename_i other
        rw [Option.eq_none_iff_forall_ne_some]
        intro rest found
        rw [reads, Text.joinWith_cons_cons, List.append_assoc, List.singleton_append] at found
        have first := (Text.splitFirst_char ' ' word (Text.joinWith [' '] (next :: words))).mpr solid
        rw [found, (Text.splitFirst_char ' ' "static".toList rest).mpr (by decide)] at first
        cases first
        exact other ⟨rfl, List.cons_ne_nil _ _⟩

/-- A line of words cut at its first parenthesis outside brackets. The words before it are complete but for the stem
that stands directly before the parenthesis and may be empty. -/
structure Signature where
  settled : List Text
  stem : Text
  more : Text
  others : List Text
  isWord : ∀ word ∈ settled ++ (stem ++ '(' :: more) :: others, Text.IsWord word
  outside : bracketDepth? 0 (settled.flatten ++ stem) = some 0

namespace Signature

variable (signature : Signature)

def line : Text :=
  Text.joinWith [' '] (signature.settled ++ (signature.stem ++ '(' :: signature.more) :: signature.others)

def isStatic : Bool :=
  signature.settled.head? == some "static".toList

def typed : List Text :=
  if signature.isStatic then signature.settled.tail else signature.settled

def head : Text :=
  Text.joinWith [' '] (signature.typed ++ [signature.stem])

def lastWord? : Option Text :=
  (signature.typed ++ Text.words signature.stem).getLast?

theorem isWord_settled : ∀ word ∈ signature.settled, Text.IsWord word :=
  fun word member => signature.isWord word (List.mem_append_left _ member)

theorem isWord_typed : ∀ word ∈ signature.typed, Text.IsWord word := by
  unfold typed
  split
  · exact fun word member => signature.isWord_settled word (List.mem_of_mem_tail member)
  · exact signature.isWord_settled

theorem isWord_opening : Text.IsWord (signature.stem ++ '(' :: signature.more) :=
  signature.isWord _ (List.mem_append_right _ List.mem_cons_self)

theorem solid_stem : ∀ c ∈ signature.stem, Text.isBlank c = false :=
  fun c member => signature.isWord_opening.solid c (List.mem_append_left _ member)

def rest : Text :=
  Text.joinWith [' '] (signature.more :: signature.others)

theorem joinWith_parenthesis (words : List Text) (stem more : Text) (others : List Text) :
    Text.joinWith [' '] (words ++ (stem ++ '(' :: more) :: others) =
      Text.joinWith [' '] (words ++ [stem]) ++ '(' :: Text.joinWith [' '] (more :: others) := by
  have regroup : stem ++ '(' :: more = (stem ++ ['(']) ++ more := by rw [List.append_assoc, List.singleton_append]
  have behind : Text.joinWith [' '] ((stem ++ '(' :: more) :: others) =
      stem ++ '(' :: Text.joinWith [' '] (more :: others) := by
    rw [regroup, Text.joinWith_lead, List.append_assoc, List.singleton_append]
  cases words with
  | nil => rw [List.nil_append, List.nil_append, behind, Text.joinWith_singleton]
  | cons word words =>
      have nonempty := List.cons_ne_nil word words
      rw [Text.joinWith_append _ _ _ _ nonempty, Text.joinWith_append _ _ _ _ nonempty, behind, Text.joinWith_singleton,
        List.append_assoc, List.append_assoc, List.append_assoc]

theorem words_head : Text.words signature.head = signature.typed ++ Text.words signature.stem := by
  unfold head
  cases known : signature.typed with
  | nil => simp
  | cons word words =>
      have isWord := signature.isWord_typed
      rw [known] at isWord
      rw [Text.joinWith_append _ _ _ _ (List.cons_ne_nil word words), Text.joinWith_singleton, List.append_assoc,
        List.singleton_append, Text.words_split ' ' _ _ rfl, Text.words_joinWith _ isWord]

theorem settled_of_isStatic (static : signature.isStatic = true) :
    signature.settled = "static".toList :: signature.settled.tail := by
  cases known : signature.settled with
  | nil =>
      rw [isStatic, known] at static
      cases static
  | cons word words =>
      rw [isStatic, known, List.head?_cons, beq_iff_eq, Option.some.injEq] at static
      rw [static, List.tail_cons]

private theorem outside_head : bracketDepth? 0 signature.head = some 0 := by
  have outside := signature.outside
  rw [head, bracketDepth_joinWith, List.flatten_append, List.flatten_singleton, typed]
  split
  · rename_i static
    rw [signature.settled_of_isStatic static] at outside
    -- No letter of `static` is a bracket.
    exact outside
  · exact outside

theorem after_line :
    Text.after? "static ".toList signature.line =
      if signature.isStatic then some (signature.head ++ '(' :: signature.rest) else none := by
  have cut := joinWith_parenthesis signature.typed signature.stem signature.more signature.others
  unfold line
  cases static : signature.isStatic with
  | true =>
      rw [typed, if_pos static] at cut
      rw [signature.settled_of_isStatic static, List.cons_append, after_static _ _ (by decide),
        if_pos ⟨rfl, List.append_ne_nil_of_right_ne_nil _ (List.cons_ne_nil _ _)⟩, if_pos rfl, cut, head, typed,
        if_pos static]
      rfl
  | false =>
      rw [if_neg Bool.false_ne_true]
      cases known : signature.settled with
      | nil =>
          have other : signature.stem ++ '(' :: signature.more ≠ "static".toList := fun same => by
            have mark : '(' ∈ "static".toList := by
              rw [← same]
              exact List.mem_append_right _ List.mem_cons_self
            exact absurd mark (by decide)
          rw [List.nil_append, after_static _ _ signature.isWord_opening.no_space, if_neg fun both => other both.1]
      | cons word words =>
          have isWord := signature.isWord_settled word (by rw [known]; exact List.mem_cons_self)
          have other : word ≠ "static".toList := by
            rintro rfl
            rw [isStatic, known] at static
            cases static
          rw [List.cons_append, after_static _ _ isWord.no_space, if_neg fun both => other both.1]

theorem line_eq (notStatic : signature.isStatic = false) :
    signature.line = signature.head ++ '(' :: signature.rest := by
  have cut := joinWith_parenthesis signature.settled signature.stem signature.more signature.others
  rw [line, cut, head, typed, if_neg (by rw [notStatic]; exact Bool.false_ne_true)]
  rfl

private theorem trimStart_head :
    Text.trimStart (signature.head ++ '(' :: signature.rest) = signature.head ++ '(' :: signature.rest := by
  have isWord : ∀ word ∈ signature.typed ++ (signature.stem ++ '(' :: signature.more) :: signature.others,
      Text.IsWord word := by
    intro word member
    rcases List.mem_append.mp member with inTyped | inRest
    · exact signature.isWord_typed word inTyped
    · exact signature.isWord word (List.mem_append_right _ inRest)
  have collapsed := Text.isCollapsed_joinWith _ isWord
    (List.append_ne_nil_of_right_ne_nil _ (List.cons_ne_nil _ _))
  rw [joinWith_parenthesis] at collapsed
  obtain ⟨c, rest, whole, firm⟩ := collapsed.head
  change signature.head ++ '(' :: signature.rest = c :: rest at whole
  rw [whole, Text.trimStart_cons c rest firm]

/-- The method of a line is named by the last word before its first parenthesis outside brackets. -/
theorem methodOf_line :
    methodOf? signature.line =
      (signature.lastWord?.filter Text.isIdentifier).map fun name => (name, signature.isStatic) := by
  have last : lastWord (Text.trimEnd signature.head) = signature.lastWord?.getD [] :=
    lastWord_trimEnd signature.typed signature.stem signature.isWord_typed signature.solid_stem
  have named (isStatic : Bool) :
      (headOf? 0 (signature.head ++ '(' :: signature.rest)).bind (fun found =>
        if Text.isIdentifier (lastWord (Text.trimEnd found)) then some (lastWord (Text.trimEnd found), isStatic)
        else none) =
      (signature.lastWord?.filter Text.isIdentifier).map fun name => (name, isStatic) := by
    rw [headOf_parenthesis signature.head signature.rest signature.outside_head, Option.bind_some, last]
    cases signature.lastWord? with
    | none => rfl
    | some word =>
        rw [Option.getD_some, Option.filter_some]
        split <;> rfl
  unfold methodOf?
  rw [signature.after_line]
  cases static : signature.isStatic with
  | true =>
      rw [if_pos rfl]
      dsimp only
      rw [signature.trimStart_head]
      exact named true
  | false =>
      rw [if_neg Bool.false_ne_true]
      dsimp only
      rw [signature.line_eq static]
      exact named false

theorem startsWith_line : Text.startsWith "static ".toList signature.line = signature.isStatic := by
  rw [Text.startsWith, signature.after_line]
  cases signature.isStatic <;> rfl

def opened : Signature where
  settled := signature.settled
  stem := signature.stem
  more := []
  others := []
  isWord := by
    intro word member
    rcases List.mem_append.mp member with inSettled | isOpening
    · exact signature.isWord_settled word inSettled
    · rw [List.mem_singleton.mp isOpening]
      exact Text.isWord_parenthesis _ signature.solid_stem
  outside := signature.outside

theorem rest_opened : signature.opened.rest = [] :=
  Text.joinWith_singleton [' '] []

end Signature

/-- A text that leaves all brackets, a parenthesis and anything behind it collapse to the line of a signature. -/
theorem exists_signature {text : Text} {settled : List Text} {stem : Text} (cut : Text.IsCut text settled stem)
    (outside : bracketDepth? 0 text = some 0) (rest : Text) :
    ∃ signature : Signature, signature.settled = settled ∧ signature.stem = stem ∧
      signature.line = Text.collapse (text ++ '(' :: rest) ∧ signature.opened.line = Text.collapse (text ++ ['(']) := by
  have isOpening := Text.isWord_parenthesis stem cut.solid
  obtain ⟨more, others, opening⟩ := Text.words_lead (stem ++ ['(']) rest isOpening
  rw [List.append_assoc, List.append_assoc, List.singleton_append, List.singleton_append] at opening
  have whole : Text.words (text ++ '(' :: rest) = settled ++ (stem ++ '(' :: more) :: others := by
    rw [cut.append, opening]
  have short : Text.words (text ++ ['(']) = settled ++ [stem ++ ['(']] := by
    rw [cut.append, Text.words_single _ isOpening]
  have flat : (Text.words stem).flatten = stem := by
    rw [Text.words_stem stem cut.solid]
    split
    · rename_i empty
      rw [empty]
      rfl
    · exact List.flatten_singleton
  have level : bracketDepth? 0 (settled.flatten ++ stem) = some 0 := by
    have counted := bracketDepth_words 0 text
    rwa [cut.words_eq, List.flatten_append, flat, outside] at counted
  refine ⟨⟨settled, stem, more, others, ?_, level⟩, rfl, rfl, ?_, ?_⟩
  · rw [← whole]
    exact Text.isWord_of_mem_words _
  · exact (congrArg (Text.joinWith [' ']) whole).symm
  · exact (congrArg (Text.joinWith [' ']) short).symm

end MemberDoc.Tag
