import MemberDoc.Proofs.TextLines
import MemberDoc.Source.Declaration

set_option autoImplicit false

/-! Readers of keywords, blanks and names see a text only up to a character that they do not take.
What follows such a character is handed on unread. -/

namespace MemberDoc.Text

/-- A character that ends statements and heads. No name, keyword or blank holds one. -/
def isBarrier (c : Char) : Bool :=
  c == ';' || c == '\x7b'

theorem not_taken_of_isBarrier (c : Char) (barrier : isBarrier c = true) :
    isWord c = false ∧ isBlank c = false ∧ isNameChar c = false ∧ isLetterStart c = false ∧ c ≠ '\\' ∧ c ≠ '#' := by
  simp only [isBarrier, Bool.or_eq_true, beq_iff_eq] at barrier
  rcases barrier with rfl | rfl <;> decide

theorem isAlpha_iff (c : Char) :
    c.isAlpha = true ↔ (65 ≤ c.toNat ∧ c.toNat ≤ 90) ∨ (97 ≤ c.toNat ∧ c.toNat ≤ 122) := by
  change (decide (c.val ≥ 'A'.val ∧ c.val ≤ 'Z'.val) || (decide (c.val ≥ 'a'.val) && decide (c.val ≤ 'z'.val))) = true
    ↔ _
  simp [UInt32.le_iff_toNat_le, ← Char.toNat_val]

theorem toNat_toLower (c : Char) :
    c.toLower.toNat = if 65 ≤ c.toNat ∧ c.toNat ≤ 90 then c.toNat + 32 else c.toNat := by
  unfold Char.toLower
  split
  · rename_i upper
    simp only [ge_iff_le, UInt32.le_iff_toNat_le] at upper
    have code : 65 ≤ c.toNat ∧ c.toNat ≤ 90 := upper
    rw [if_pos code]
    change (c.val + ('a'.val - 'A'.val)).toNat = c.toNat + 32
    have shift : ('a'.val - 'A'.val).toNat = 32 := rfl
    have same : c.val.toNat = c.toNat := rfl
    rw [UInt32.toNat_add, shift, same]
    omega
  · rename_i outside
    simp only [ge_iff_le, UInt32.le_iff_toNat_le] at outside
    exact (if_neg outside).symm

private theorem isAlpha_of_toLower (c : Char) (letter : c.toLower.isLower = true) : c.isAlpha = true := by
  unfold Char.toLower at letter
  split at letter
  · rename_i upper
    rw [isAlpha_iff]
    simp only [ge_iff_le, UInt32.le_iff_toNat_le] at upper
    exact .inl upper
  · exact Bool.or_eq_true_iff.mpr (.inr letter)

theorem isWord_of_isAlpha (c : Char) (alpha : c.isAlpha = true) : isWord c = true := by
  have bound := (isAlpha_iff c).mp alpha
  have small : c.toNat < 0x80 := by omega
  rw [isWord, if_pos small]
  simp [Char.isAlphanum, alpha]

theorem isWord_of_foldCase (c x : Char) (letter : x.isLower = true) (folded : foldCase c = x) : isWord c = true := by
  unfold foldCase at folded
  split at folded
  · rename_i long
    have large : ¬ c.toNat < 0x80 := by omega
    rw [isWord, if_neg large, long]
    decide
  · split at folded
    · rename_i kelvin
      have large : ¬ c.toNat < 0x80 := by omega
      rw [isWord, if_neg large, kelvin]
      decide +kernel
    · subst folded
      exact isWord_of_isAlpha c (isAlpha_of_toLower c letter)

theorem not_isWord_of_isBlank (c : Char) (blank : isBlank c = true) : isWord c = false := by
  have codes : ∀ code ∈ [0x85, 0xA0, 0x1680, 0x2000, 0x2001, 0x2002, 0x2003, 0x2004, 0x2005, 0x2006, 0x2007,
      0x2008, 0x2009, 0x200A, 0x2028, 0x2029, 0x202F, 0x205F, 0x3000], inRanges wordRanges code = false := by
    decide +kernel
  simp only [isBlank, Bool.or_eq_true, Bool.and_eq_true, decide_eq_true_eq, beq_iff_eq] at blank
  by_cases small : c.toNat < 0x80
  · have notAlpha : c.isAlpha = false := by
      rw [Bool.eq_false_iff, Ne, isAlpha_iff]
      omega
    have notDigit : c.isDigit = false := by
      simp only [Char.isDigit, Bool.and_eq_false_iff, decide_eq_false_iff_not, UInt32.le_iff_toNat_le,
        Char.toNat_val]
      have zero : '0'.toNat = 48 := rfl
      omega
    have notMark : c ≠ '_' := by
      rintro rfl
      simp at blank
    rw [isWord, if_pos small]
    simp [Char.isAlphanum, notAlpha, notDigit, notMark]
  · rw [isWord, if_neg small]
    apply codes
    simp only [List.mem_cons, List.not_mem_nil, or_false]
    omega

theorem isAlpha_eq_false_of_isBlank (c : Char) (blank : isBlank c = true) : c.isAlpha = false := by
  have apart := not_isWord_of_isBlank c blank
  by_cases alpha : c.isAlpha = true
  · rw [isWord_of_isAlpha c alpha] at apart
    cases apart
  · simpa using alpha

theorem eq_of_toLower (c mark : Char) (small : mark.toNat < 97) (same : c.toLower = mark) : c = mark := by
  unfold Char.toLower at same
  split at same
  · rename_i upper
    have code : (c.val + 32).toNat = mark.toNat := congrArg Char.toNat same
    simp only [ge_iff_le, UInt32.le_iff_toNat_le] at upper
    rw [UInt32.toNat_add] at code
    have first : 'A'.val.toNat = 65 := rfl
    have last : 'Z'.val.toNat = 90 := rfl
    have shift : (32 : UInt32).toNat = 32 := rfl
    omega
  · exact same

theorem not_mem_of_sameName (left right : Text) (same : sameName left right = true) (mark : Char)
    (small : mark.toNat < 65) (absent : mark ∉ left) : mark ∉ right := by
  intro member
  have lowered : lower left = lower right := by simpa [sameName] using same
  have kept : mark.toLower = mark := by
    unfold Char.toLower
    split
    · rename_i upper
      simp only [ge_iff_le, UInt32.le_iff_toNat_le] at upper
      have first : 65 ≤ mark.toNat := upper.1
      exact absurd first (Nat.not_le.mpr small)
    · rfl
  have inside : mark ∈ lower left := by
    rw [lowered, ← kept]
    exact List.mem_map_of_mem member
  obtain ⟨c, there, folded⟩ := List.mem_map.mp inside
  rw [eq_of_toLower c mark (by omega) folded] at there
  exact absent there

theorem eq_or_isAlpha (c d : Char) (same : c.toLower = d.toLower) : c = d ∨ (c.isAlpha = true ∧ d.isAlpha = true) := by
  have codes := congrArg Char.toNat same
  rw [toNat_toLower, toNat_toLower] at codes
  rw [isAlpha_iff, isAlpha_iff]
  by_cases equal : c.toNat = d.toNat
  · exact .inl (Char.toNat_inj.mp equal)
  · right
    split at codes <;> split at codes <;> omega

theorem isNameStart_of_isAlpha (c : Char) (alpha : c.isAlpha = true) : isNameStart c = true := by
  simp [isNameStart, alpha]

@[simp] theorem isBlank_toLower (c : Char) : isBlank c.toLower = isBlank c := by
  have again : c.toLower = c.toLower.toLower := by
    apply Char.toNat_inj.mp
    rw [toNat_toLower c.toLower, toNat_toLower c]
    by_cases upper : 65 ≤ c.toNat ∧ c.toNat ≤ 90
    · rw [if_pos upper, if_neg (by omega)]
    · rw [if_neg upper, if_neg upper]
  have letter (d : Char) (alpha : d.isAlpha = true) : isBlank d = false := by
    cases blank : isBlank d with
    | false => rfl
    | true =>
        rw [isAlpha_eq_false_of_isBlank d blank] at alpha
        cases alpha
  rcases eq_or_isAlpha c c.toLower again with same | ⟨own, lowered⟩
  · rw [← same]
  · rw [letter _ own, letter _ lowered]

theorem trim_lower (text : Text) : trim (lower text) = lower (trim text) := by
  have kept : isBlank ∘ Char.toLower = isBlank := funext isBlank_toLower
  unfold trim trimEnd trimStart lower
  rw [List.dropWhile_map, kept, ← List.map_reverse, List.dropWhile_map, kept, List.map_reverse]

theorem foldCase_eq_iff (c d : Char) (small : d.toNat < 0x80) (notS : d ≠ 's') (notK : d ≠ 'k') :
    foldCase c = d ↔ c.toLower = d := by
  have other (wide : 0x80 ≤ c.toNat) : c.toLower ≠ d := by
    rintro rfl
    rw [toNat_toLower, if_neg (by omega)] at small
    omega
  unfold foldCase
  split
  · rename_i long
    exact iff_of_false (Ne.symm notS) (other (by omega))
  · split
    · rename_i kelvin
      exact iff_of_false (Ne.symm notK) (other (by omega))
    · exact Iff.rfl

theorem map_foldCase_eq_iff (keyword word : Text) (plain : ∀ d ∈ word, d.toNat < 0x80 ∧ d ≠ 's' ∧ d ≠ 'k') :
    keyword.map foldCase = word ↔ lower keyword = word := by
  unfold lower
  induction keyword generalizing word with
  | nil => exact Iff.rfl
  | cons c keyword ih =>
      cases word with
      | nil => simp
      | cons d word =>
          obtain ⟨⟨small, notS, notK⟩, others⟩ := List.forall_mem_cons.mp plain
          rw [List.map_cons, List.map_cons, List.cons.injEq, List.cons.injEq, ih word others,
            foldCase_eq_iff c d small notS notK]

theorem isWord_of_isLetterStart (c : Char) (letter : isLetterStart c = true) : isWord c = true := by
  simp only [isLetterStart, Bool.or_eq_true, beq_iff_eq] at letter
  rcases letter with alpha | rfl
  · unfold foldCase at alpha
    split at alpha
    · exact isWord_of_foldCase c 's' rfl (by unfold foldCase; rw [if_pos (by assumption)])
    · rename_i notLong
      split at alpha
      · rename_i kelvin
        exact isWord_of_foldCase c 'k' rfl (by unfold foldCase; rw [if_neg notLong, if_pos kelvin])
      · apply isWord_of_isAlpha
        unfold Char.toLower at alpha
        split at alpha
        · rename_i upper
          rw [isAlpha_iff]
          simp only [UInt32.le_iff_toNat_le, ge_iff_le] at upper
          exact .inl ⟨upper.1, upper.2⟩
        · exact alpha
  · rfl

theorem getLast_suffix (lead rest : Text) (nonempty : rest ≠ []) : (lead ++ rest).getLast? = rest.getLast? := by
  rw [List.getLast?_append, List.getLast?_eq_some_getLast nonempty]
  rfl

/-- A keyword is read in every spelling that folds to it. -/
theorem afterKeyword_eq_some_iff (word text rest : Text) :
    afterKeyword? word text = some rest ↔ ∃ keyword, text = keyword ++ rest ∧ keyword.map foldCase = word := by
  induction word generalizing text with
  | nil =>
      simp only [afterKeyword?, Option.some.injEq, List.map_eq_nil_iff]
      constructor
      · rintro rfl
        exact ⟨[], rfl, rfl⟩
      · rintro ⟨_, whole, rfl⟩
        exact whole
  | cons expected word ih =>
      cases text with
      | nil =>
          refine iff_of_false (fun found => by cases found) ?_
          rintro ⟨keyword, whole, same⟩
          rw [(List.append_eq_nil_iff.mp whole.symm).1] at same
          cases same
      | cons c text =>
          rw [afterKeyword?]
          constructor
          · intro found
            split at found
            · rename_i folded
              obtain ⟨keyword, rfl, others⟩ := (ih text).mp found
              exact ⟨c :: keyword, rfl, by rw [List.map_cons, folded, others]⟩
            · cases found
          · rintro ⟨keyword, whole, same⟩
            cases keyword with
            | nil => cases same
            | cons d keyword =>
                obtain ⟨rfl, split⟩ := List.cons.inj whole
                obtain ⟨folded, others⟩ := List.cons.inj same
                rw [if_pos folded]
                exact (ih text).mpr ⟨keyword, split, others⟩

theorem afterKeyword_append (word text rest : Text) (found : afterKeyword? word text = some rest) :
    text = text.take word.length ++ rest ∧ (text.take word.length).length = word.length := by
  obtain ⟨keyword, rfl, rfl⟩ := (afterKeyword_eq_some_iff word text rest).mp found
  rw [List.length_map, List.take_left]
  exact ⟨rfl, rfl⟩

/-- A keyword ends before a character that is no word character. -/
theorem afterKeyword_extend (word text more : Text) (last : Char) (lower : word.all Char.isLower = true)
    (ends : text.getLast? = some last) (apart : isWord last = false) :
    afterKeyword? word (text ++ more) = (afterKeyword? word text).map (· ++ more) ∧
      ∀ rest, afterKeyword? word text = some rest → rest.getLast? = some last := by
  induction word generalizing text with
  | nil =>
      refine ⟨rfl, fun rest found => ?_⟩
      cases found
      exact ends
  | cons expected word ih =>
      rw [List.all_cons, Bool.and_eq_true] at lower
      cases text with
      | nil => cases ends
      | cons c text =>
          rw [List.cons_append, afterKeyword?, afterKeyword?]
          by_cases same : foldCase c = expected
          · rw [if_pos same, if_pos same]
            cases text with
            | nil =>
                have here : c = last := Option.some.inj ends
                rw [← here, isWord_of_foldCase c expected lower.1 same] at apart
                cases apart
            | cons d text => exact ih (d :: text) lower.2 ends
          · rw [if_neg same, if_neg same]
            exact ⟨rfl, fun rest found => by cases found⟩

theorem keyword_append (keywords : List Text) (text keyword rest : Text)
    (found : keyword? keywords text = some (keyword, rest)) :
    text = keyword ++ rest ∧ ∃ word ∈ keywords, keyword = text.take word.length ∧
      afterKeyword? word text = some rest := by
  unfold keyword? at found
  obtain ⟨word, member, known⟩ := List.exists_of_findSome?_eq_some found
  obtain ⟨behind, here, same⟩ := Option.map_eq_some_iff.mp known
  cases same
  exact ⟨(afterKeyword_append word text rest here).1, word, member, rfl, here⟩

theorem keyword_extend (keywords : List Text) (text more : Text) (last : Char)
    (lower : ∀ word ∈ keywords, word.all Char.isLower = true) (ends : text.getLast? = some last)
    (apart : isWord last = false) :
    keyword? keywords (text ++ more) = (keyword? keywords text).map fun found => (found.1, found.2 ++ more) := by
  induction keywords with
  | nil => rfl
  | cons word keywords ih =>
      have here := (afterKeyword_extend word text more last (lower word List.mem_cons_self) ends apart).1
      have later := ih fun other member => lower other (List.mem_cons_of_mem word member)
      unfold keyword? at later ⊢
      rw [List.findSome?_cons, List.findSome?_cons, here]
      cases found : afterKeyword? word text with
      | none => exact later
      | some rest =>
          obtain ⟨_, size⟩ := afterKeyword_append word text rest found
          rw [List.length_take] at size
          simp only [Option.map_some]
          rw [List.take_append_of_le_length (by omega)]

theorem trimStart_ne_nil (text : Text) (last : Char) (ends : text.getLast? = some last)
    (solid : isBlank last = false) : trimStart text ≠ [] := by
  intro empty
  have blank := trimStart_eq_nil text empty last (List.mem_of_getLast? ends)
  rw [solid] at blank
  cases blank

theorem getLast_trimStart (text : Text) (last : Char) (ends : text.getLast? = some last)
    (nonempty : trimStart text ≠ []) : (trimStart text).getLast? = some last := by
  obtain ⟨pad, whole, _⟩ := trimStart_split text
  rw [← getLast_suffix pad _ nonempty, ← whole, ends]

theorem afterBlanks_append (text rest : Text) (found : afterBlanks? text = some rest) :
    ∃ c pad, text = c :: pad ++ rest ∧ isBlank c = true ∧ ∀ d ∈ pad, isBlank d = true := by
  cases text with
  | nil => cases found
  | cons c text =>
      rw [afterBlanks?] at found
      split at found
      · rename_i blank
        cases found
        obtain ⟨pad, whole, blanks⟩ := trimStart_split text
        exact ⟨c, pad, by rw [List.cons_append, ← whole], blank, blanks⟩
      · cases found

theorem afterBlanks_extend (text more : Text) (last : Char) (ends : text.getLast? = some last)
    (solid : isBlank last = false) :
    afterBlanks? (text ++ more) = (afterBlanks? text).map (· ++ more) ∧
      ∀ rest, afterBlanks? text = some rest → rest.getLast? = some last := by
  cases text with
  | nil => cases ends
  | cons c text =>
      rw [List.cons_append, afterBlanks?, afterBlanks?]
      by_cases blank : isBlank c = true
      · rw [if_pos blank, if_pos blank]
        cases text with
        | nil =>
            have here : c = last := Option.some.inj ends
            rw [here, solid] at blank
            cases blank
        | cons d text =>
            have nonempty := trimStart_ne_nil (d :: text) last ends solid
            rw [trimStart_append, if_neg nonempty]
            refine ⟨rfl, fun rest found => ?_⟩
            cases found
            exact getLast_trimStart (d :: text) last ends nonempty
      · rw [if_neg blank, if_neg blank]
        exact ⟨rfl, fun rest found => by cases found⟩

theorem takeWhile_stops (taken : Char → Bool) (run behind : Text) (inside : ∀ c ∈ run, taken c = true)
    (stops : ∀ c, behind.head? = some c → taken c = false) :
    (run ++ behind).takeWhile taken = run ∧ (run ++ behind).dropWhile taken = behind := by
  have apart : behind.takeWhile taken = [] ∧ behind.dropWhile taken = behind := by
    cases behind with
    | nil => exact ⟨rfl, rfl⟩
    | cons c behind =>
        have other : ¬ taken c = true := by simp [stops c rfl]
        exact ⟨List.takeWhile_cons_of_neg other, List.dropWhile_cons_of_neg other⟩
  rw [List.takeWhile_append_of_pos inside, List.dropWhile_append_of_pos inside, apart.1, apart.2, List.append_nil]
  exact ⟨rfl, rfl⟩

/-- A word that ends within a text does not see what follows the text. -/
theorem takeWhile_stopped (taken : Char → Bool) (text more : Text) (stopped : ∃ c ∈ text, taken c = false) :
    (text ++ more).takeWhile taken = text.takeWhile taken ∧
      (text ++ more).dropWhile taken = text.dropWhile taken ++ more := by
  obtain ⟨stop, member, apart⟩ := stopped
  induction text with
  | nil => cases member
  | cons c text ih =>
      rw [List.cons_append]
      by_cases here : taken c = true
      · rw [List.takeWhile_cons_of_pos here, List.takeWhile_cons_of_pos here, List.dropWhile_cons_of_pos here,
          List.dropWhile_cons_of_pos here]
        rcases List.mem_cons.mp member with rfl | later
        · rw [apart] at here
          cases here
        · obtain ⟨taking, dropping⟩ := ih later
          exact ⟨by rw [taking], dropping⟩
      · rw [List.takeWhile_cons_of_neg here, List.takeWhile_cons_of_neg here, List.dropWhile_cons_of_neg here,
          List.dropWhile_cons_of_neg here]
        exact ⟨rfl, rfl⟩

theorem takeWhile_extend (taken : Char → Bool) (text more : Text) (last : Char) (ends : text.getLast? = some last)
    (apart : taken last = false) :
    (text ++ more).takeWhile taken = text.takeWhile taken ∧
      (text ++ more).dropWhile taken = text.dropWhile taken ++ more ∧
      (text.dropWhile taken).getLast? = some last := by
  have member := List.mem_of_getLast? ends
  obtain ⟨taking, dropping⟩ := takeWhile_stopped taken text more ⟨last, member, apart⟩
  have whole : text.takeWhile taken ++ text.dropWhile taken = text := List.takeWhile_append_dropWhile
  have left : text.dropWhile taken ≠ [] := by
    intro empty
    rw [empty, List.append_nil] at whole
    rw [← whole] at member
    have inside := List.all_eq_true.mp List.all_takeWhile last member
    rw [apart] at inside
    cases inside
  refine ⟨taking, dropping, ?_⟩
  rw [← getLast_suffix (text.takeWhile taken) _ left, whole, ends]

theorem name_append (text name after : Text) (found : name? text = some (name, after)) :
    text = name ++ after ∧ name ≠ [] ∧ ∀ c ∈ name, isNameChar c = true := by
  cases text with
  | nil => cases found
  | cons c text =>
      rw [name?] at found
      split at found
      · rename_i start
        cases found
        refine ⟨?_, List.cons_ne_nil _ _, ?_⟩
        · rw [List.cons_append, List.takeWhile_append_dropWhile]
        · intro d member
          rcases List.mem_cons.mp member with rfl | inside
          · simp [isNameChar, start]
          · exact List.all_eq_true.mp List.all_takeWhile d inside
      · cases found

@[simp] theorem lateName_nil : lateName? [] = none := rfl

theorem lateName_cons (c : Char) (rest : Text) :
    lateName? (c :: rest) =
      match if isBlank c then lateName? rest else none with
      | some found => some { found with gap := c :: found.gap }
      | none => (name? (c :: rest)).map fun found => ⟨[], found.1, found.2⟩ := by
  with_unfolding_all rfl

theorem lateName_append (text : Text) (found : SpacedName) (known : lateName? text = some found) :
    text = found.gap ++ found.name ++ found.after ∧ found.name ≠ [] ∧
      (∀ c ∈ found.gap, isBlank c = true) ∧ ∀ c ∈ found.name, isNameChar c = true := by
  induction text generalizing found with
  | nil =>
      rw [lateName_nil] at known
      cases known
  | cons c text ih =>
      rw [lateName_cons] at known
      split at known
      · rename_i later attempt
        split at attempt
        · rename_i blank
          cases known
          obtain ⟨whole, nonempty, blanks, chars⟩ := ih later attempt
          refine ⟨by rw [whole]; rfl, nonempty, ?_, chars⟩
          intro d member
          rcases List.mem_cons.mp member with rfl | inside
          · exact blank
          · exact blanks d inside
        · cases attempt
      · obtain ⟨⟨name, after⟩, here, same⟩ := Option.map_eq_some_iff.mp known
        cases same
        obtain ⟨whole, nonempty, chars⟩ := name_append _ _ _ here
        exact ⟨whole, nonempty, fun d member => absurd member List.not_mem_nil, chars⟩

private theorem name_extend (c : Char) (text more : Text) (last : Char) (ends : (c :: text).getLast? = some last)
    (apart : isNameChar last = false) :
    name? (c :: text ++ more) = (name? (c :: text)).map fun found => (found.1, found.2 ++ more) := by
  rw [List.cons_append, name?, name?]
  split
  · rename_i start
    cases text with
    | nil =>
        have same : c = last := Option.some.inj ends
        simp [← same, isNameChar, start] at apart
    | cons d text =>
        obtain ⟨taking, dropping, _⟩ := takeWhile_extend isNameChar (d :: text) more last ends apart
        rw [taking, dropping]
        rfl
  · rfl

theorem lateName_extend (text more : Text) (last : Char) (ends : text.getLast? = some last)
    (solid : isBlank last = false) (apart : isNameChar last = false) :
    lateName? (text ++ more) = (lateName? text).map fun found => { found with after := found.after ++ more } := by
  induction text with
  | nil => cases ends
  | cons c text ih =>
      have named := name_extend c text more last ends apart
      rw [List.cons_append] at named
      rw [List.cons_append, lateName_cons, lateName_cons, named]
      by_cases blank : isBlank c = true
      · rw [if_pos blank, if_pos blank]
        cases text with
        | nil =>
            have same : c = last := Option.some.inj ends
            rw [same, solid] at blank
            cases blank
        | cons d text =>
            rw [ih ends]
            cases lateName? (d :: text) with
            | none => cases name? (c :: d :: text) <;> rfl
            | some found => rfl
      · rw [if_neg blank, if_neg blank]
        cases name? (c :: text) <;> rfl

/-- What a mask shows for comments. -/
def IsPad (text : Text) : Prop :=
  ∀ c ∈ text, c = ' ' ∨ c = '\n'

theorem IsPad.blank {text : Text} (pad : IsPad text) (c : Char) (member : c ∈ text) : isBlank c = true := by
  rcases pad c member with rfl | rfl <;> rfl

theorem IsPad.tail {c : Char} {text : Text} (pad : IsPad (c :: text)) : IsPad text :=
  fun d member => pad d (List.mem_cons_of_mem c member)

theorem IsPad.head {c : Char} {text : Text} (pad : IsPad (c :: text)) : c = ' ' ∨ c = '\n' :=
  pad c List.mem_cons_self

private theorem lateName_pad (pad text : Text) (isPad : IsPad pad) :
    lateName? (pad ++ text) = (lateName? text).map fun found => { found with gap := pad ++ found.gap } := by
  induction pad with
  | nil => cases known : lateName? text <;> simp [known]
  | cons c pad ih =>
      have blank := isPad.blank c List.mem_cons_self
      have notName : isNameStart c = false := by
        rcases isPad.head with rfl | rfl <;> rfl
      rw [List.cons_append, lateName_cons, if_pos blank, ih isPad.tail, name?, notName]
      cases lateName? text <;> rfl

/-- How reading a name changes when a pad inside the text is exchanged: there is none, it ends before
the pad, it starts behind the pad, or there was no pad and it runs across the place. -/
inductive NameAround (lead pad other tail : Text) : Prop where
  | missing (before : lateName? (lead ++ (pad ++ tail)) = none)
      (after : lateName? (lead ++ (other ++ tail)) = none)
  | inside (gap name rest : Text) (whole : lead = gap ++ name ++ rest)
      (before : lateName? (lead ++ (pad ++ tail)) = some ⟨gap, name, rest ++ (pad ++ tail)⟩)
      (after : lateName? (lead ++ (other ++ tail)) = some ⟨gap, name, rest ++ (other ++ tail)⟩)
  | beyond (gap name rest : Text) (whole : tail = gap ++ name ++ rest)
      (before : lateName? (lead ++ (pad ++ tail)) = some ⟨lead ++ pad ++ gap, name, rest⟩)
      (after : lateName? (lead ++ (other ++ tail)) = some ⟨lead ++ other ++ gap, name, rest⟩)
  | across (found : SpacedName) (unpadded : pad = [])
      (before : lateName? (lead ++ (pad ++ tail)) = some found)
      (length : lead.length < found.gap.length + found.name.length)

/-- A place that a name cannot pass unseen: no name reaches it from the left, or there is no pad and a
name that reaches it goes on. -/
def StopsName (lead pad tail : Text) : Prop :=
  (∀ c, lead.getLast? = some c → isNameChar c = false) ∨ (pad = [] ∧ ∃ c rest, tail = c :: rest ∧ isNameChar c = true)

theorem StopsName.tail {c : Char} {lead pad tail : Text} (stops : StopsName (c :: lead) pad tail) :
    StopsName lead pad tail := by
  rcases stops with apart | going
  · cases lead with
    | nil => exact .inl fun d last => by cases last
    | cons d lead => exact .inl apart
  · exact .inr going

private theorem nameAround_name (c : Char) (lead pad other tail : Text) (stops : StopsName (c :: lead) pad tail)
    (here : ∀ behind ∈ [pad ++ tail, other ++ tail], lateName? (c :: lead ++ behind) =
      (name? (c :: lead ++ behind)).map fun found => ⟨[], found.1, found.2⟩) :
    NameAround (c :: lead) pad other tail := by
  have hereBefore := here _ List.mem_cons_self
  have hereAfter := here _ (List.mem_cons_of_mem _ List.mem_cons_self)
  by_cases start : isNameStart c = true
  · have named (behind : Text) : name? (c :: lead ++ behind) =
        some (c :: (lead ++ behind).takeWhile isNameChar, (lead ++ behind).dropWhile isNameChar) := by
      rw [List.cons_append, name?, if_pos start]
    by_cases all : ∀ d ∈ lead, isNameChar d = true
    · rcases stops with apart | ⟨rfl, d, rest, rfl, going⟩
      · have last := apart _ (List.getLast?_eq_some_getLast (List.cons_ne_nil c lead))
        have named : isNameChar ((c :: lead).getLast (List.cons_ne_nil c lead)) = true := by
          rcases List.mem_cons.mp (List.getLast_mem (List.cons_ne_nil c lead)) with same | inside
          · rw [same]
            simp [isNameChar, start]
          · exact all _ inside
        rw [last] at named
        cases named
      · refine .across _ rfl (hereBefore.trans (by rw [named]; rfl)) ?_
        rw [List.nil_append, List.takeWhile_append_of_pos all, List.takeWhile_cons_of_pos going]
        simp only [List.length_cons, List.length_append, List.length_nil]
        omega
    · have stopped : ∃ d ∈ lead, isNameChar d = false := by simpa using all
      have taking (behind : Text) := (takeWhile_stopped isNameChar lead behind stopped).1
      have dropping (behind : Text) := (takeWhile_stopped isNameChar lead behind stopped).2
      refine .inside [] (c :: lead.takeWhile isNameChar) (lead.dropWhile isNameChar) ?_ ?_ ?_
      · rw [List.nil_append, List.cons_append, List.takeWhile_append_dropWhile]
      · rw [hereBefore, named, taking, dropping]
        rfl
      · rw [hereAfter, named, taking, dropping]
        rfl
  · have unnamed (behind : Text) : name? (c :: lead ++ behind) = none := by
      rw [List.cons_append, name?, if_neg start]
    refine .missing ?_ ?_
    · rw [hereBefore, unnamed]
      rfl
    · rw [hereAfter, unnamed]
      rfl

theorem nameAround (lead pad other tail : Text) (isPad : IsPad pad) (isOther : IsPad other)
    (stops : StopsName lead pad tail) : NameAround lead pad other tail := by
  induction lead with
  | nil =>
      have before := lateName_pad pad tail isPad
      have after := lateName_pad other tail isOther
      cases known : lateName? tail with
      | none =>
          rw [known] at before after
          exact .missing before after
      | some found =>
          rw [known] at before after
          exact .beyond found.gap found.name found.after (lateName_append tail found known).1 before after
  | cons c lead ih =>
      by_cases blank : isBlank c = true
      · have step (behind : Text) := lateName_cons c (lead ++ behind)
        simp only [if_pos blank] at step
        cases ih stops.tail with
        | missing before after =>
            refine nameAround_name c lead pad other tail stops fun behind either => ?_
            rw [List.cons_append, step]
            simp only [List.mem_cons, List.not_mem_nil, or_false] at either
            rcases either with rfl | rfl
            · rw [before]
            · rw [after]
        | inside gap name rest whole before after =>
            refine .inside (c :: gap) name rest (by rw [whole]; rfl) ?_ ?_
            · rw [List.cons_append, step, before]
            · rw [List.cons_append, step, after]
        | beyond gap name rest whole before after =>
            refine .beyond gap name rest whole ?_ ?_
            · rw [List.cons_append, step, before]
              rfl
            · rw [List.cons_append, step, after]
              rfl
        | across found unpadded before length =>
            refine .across { found with gap := c :: found.gap } unpadded ?_ ?_
            · rw [List.cons_append, step, before]
            · simp only [List.length_cons]
              omega
      · refine nameAround_name c lead pad other tail stops fun behind _ => ?_
        rw [List.cons_append, lateName_cons, if_neg blank]

end MemberDoc.Text
