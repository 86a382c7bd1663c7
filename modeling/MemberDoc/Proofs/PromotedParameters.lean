import MemberDoc.Proofs.AttributeText
import MemberDoc.Proofs.NameText

set_option autoImplicit false

/-! Properties that a constructor declares by its parameters. The parameters are read one by one, whatever brackets
stand in their attributes and default values, and nothing behind the bracket that closes them is read. -/

namespace MemberDoc.Source

def isOpening (c : Char) : Bool :=
  c = '(' || c = '['

def isClosing (c : Char) : Bool :=
  c = ')' || c = ']'

/-- With brackets of both kinds counted together, a text leads from one depth to another one. No part at its start
closes more brackets than are open, and no comma stands outside of all of them. -/
structure Nests (depth inner : Nat) (text : Text) : Prop where
  parts : ∀ part, part <+: text → part.countP isClosing ≤ depth + part.countP isOpening
  whole : inner + text.countP isClosing = depth + text.countP isOpening
  commas : ∀ part, part ++ [','] <+: text → part.countP isClosing ≠ depth + part.countP isOpening

/-- A text that closes the brackets that it opens, and no others, with no comma outside of them. -/
def IsParameter (text : Text) : Prop :=
  Nests 0 0 text

@[simp] theorem nests_nil (depth inner : Nat) : Nests depth inner [] ↔ depth = inner := by
  constructor
  · intro nests
    exact nests.whole.symm
  · rintro rfl
    refine ⟨fun part starts => ?_, rfl, fun part starts => ?_⟩
    · rw [List.prefix_nil.mp starts]
      exact Nat.zero_le _
    · simp at starts

theorem nests_cons (depth next inner : Nat) (c : Char) (text : Text)
    (change : depth + [c].countP isOpening = next + [c].countP isClosing) (comma : c = ',' → depth ≠ 0) :
    Nests depth inner (c :: text) ↔ Nests next inner text := by
  have split (count : Char → Bool) (part : Text) : (c :: part).countP count = [c].countP count + part.countP count := by
    rw [← List.singleton_append, List.countP_append]
  constructor
  · rintro ⟨parts, whole, commas⟩
    rw [split isClosing text, split isOpening text] at whole
    refine ⟨fun part starts => ?_, by omega, fun part starts => ?_⟩
    · have bound := parts (c :: part) (List.cons_prefix_cons.mpr ⟨rfl, starts⟩)
      rw [split isClosing part, split isOpening part] at bound
      omega
    · have apart := commas (c :: part) (List.cons_prefix_cons.mpr ⟨rfl, starts⟩)
      rw [split isClosing part, split isOpening part] at apart
      omega
  · rintro ⟨parts, whole, commas⟩
    refine ⟨?_, ?_, ?_⟩
    · rw [forall_start_cons fun part => part.countP isClosing ≤ depth + part.countP isOpening]
      refine ⟨Nat.zero_le _, fun part starts => ?_⟩
      have bound := parts part starts
      rw [split isClosing part, split isOpening part]
      omega
    · rw [split isClosing text, split isOpening text]
      omega
    · rw [forall_before_cons ',' fun part => part.countP isClosing ≠ depth + part.countP isOpening]
      refine ⟨fun same => Ne.symm (comma same), fun part starts => ?_⟩
      have apart := commas part starts
      rw [split isClosing part, split isOpening part]
      omega

def groupDepth? (depth : Nat) : Text → Option Nat
  | [] => some depth
  | c :: rest =>
      if isOpening c then groupDepth? (depth + 1) rest
      else if isClosing c then if depth = 0 then none else groupDepth? (depth - 1) rest
      else if c = ',' && depth = 0 then none
      else groupDepth? depth rest

private theorem isClosing_of_isOpening (c : Char) (opening : isOpening c = true) : isClosing c = false := by
  simp only [isOpening, Bool.or_eq_true, decide_eq_true_eq] at opening
  rcases opening with rfl | rfl <;> rfl

theorem groupDepth_eq_some_iff (depth inner : Nat) (text : Text) :
    groupDepth? depth text = some inner ↔ Nests depth inner text := by
  fun_induction groupDepth? depth text with
  | case1 depth => rw [nests_nil, Option.some.injEq]
  | case2 depth c text opening ih =>
      rw [ih, nests_cons depth (depth + 1)]
      · rw [List.countP_singleton, List.countP_singleton, if_pos opening, isClosing_of_isOpening c opening]
        rfl
      · rintro rfl
        cases opening
  | case3 c text opening closing =>
      refine iff_of_false (fun found => by cases found) fun nests => ?_
      have bound := nests.parts [c] ⟨text, rfl⟩
      rw [List.countP_singleton, List.countP_singleton, if_pos closing, if_neg opening] at bound
      omega
  | case4 depth c text opening closing inside ih =>
      rw [ih, nests_cons depth (depth - 1)]
      · rw [List.countP_singleton, List.countP_singleton, if_neg opening, if_pos closing]
        omega
      · exact fun _ => inside
  | case5 depth c text opening closing comma =>
      have outside : c = ',' ∧ depth = 0 := by simpa using comma
      obtain ⟨rfl, rfl⟩ := outside
      exact iff_of_false (fun found => by cases found) fun nests => nests.commas [] ⟨text, rfl⟩ rfl
  | case6 depth c text opening closing comma ih =>
      rw [ih, nests_cons depth depth]
      · rw [List.countP_singleton, List.countP_singleton, if_neg opening, if_neg closing]
      · rintro rfl outside
        exact comma (by rw [outside]; rfl)

theorem isParameter_iff (text : Text) : IsParameter text ↔ groupDepth? 0 text = some 0 :=
  (groupDepth_eq_some_iff 0 0 text).symm

instance (text : Text) : Decidable (IsParameter text) :=
  decidable_of_iff (groupDepth? 0 text = some 0) (isParameter_iff text).symm

theorem parameters_cons (depth : Nat) (c : Char) (rest : Text) :
    parameters depth (c :: rest) =
      if isOpening c then Text.consHead c (parameters (depth + 1) rest)
      else if isClosing c then if depth = 0 then [[]] else Text.consHead c (parameters (depth - 1) rest)
      else if c = ',' && depth = 0 then [] :: parameters 0 rest
      else Text.consHead c (parameters depth rest) := by
  cases depth <;> rfl

/-- A text in which no parameter ends belongs to the first parameter of what follows. -/
theorem parameters_append (depth inner : Nat) (text behind head : Text) (tail : List Text)
    (nested : groupDepth? depth text = some inner) (known : parameters inner behind = head :: tail) :
    parameters depth (text ++ behind) = (text ++ head) :: tail := by
  fun_induction groupDepth? depth text with
  | case1 depth =>
      cases nested
      exact known
  | case2 depth c text opening ih =>
      rw [List.cons_append, parameters_cons, if_pos opening, ih nested]
      rfl
  | case3 c text opening closing => cases nested
  | case4 depth c text opening closing inside ih =>
      rw [List.cons_append, parameters_cons, if_neg opening, if_pos closing, if_neg inside, ih nested]
      rfl
  | case5 depth c text opening closing comma => cases nested
  | case6 depth c text opening closing comma ih =>
      rw [List.cons_append, parameters_cons, if_neg opening, if_neg closing, if_neg comma, ih nested]
      rfl

private theorem parameters_joined (first : Text) (others : List Text) (rest : Text)
    (balanced : ∀ parameter ∈ first :: others, IsParameter parameter) :
    parameters 0 (Text.joinWith [','] (first :: others) ++ ')' :: rest) = first :: others := by
  induction others generalizing first with
  | nil =>
      have nested := (isParameter_iff first).mp (balanced first List.mem_cons_self)
      rw [Text.joinWith_singleton, parameters_append 0 0 first _ [] [] nested rfl, List.append_nil]
  | cons second others ih =>
      have nested := (isParameter_iff first).mp (balanced first List.mem_cons_self)
      have later := ih second fun parameter member => balanced parameter (List.mem_cons_of_mem first member)
      have behind : parameters 0 (',' :: (Text.joinWith [','] (second :: others) ++ ')' :: rest)) =
          [] :: second :: others := by
        rw [parameters_cons, if_neg (by decide), if_neg (by decide), if_pos (by decide), later]
      rw [Text.joinWith_cons_cons, List.append_assoc, List.append_assoc, List.singleton_append,
        parameters_append 0 0 first _ [] (second :: others) nested behind, List.append_nil]

end MemberDoc.Source

namespace MemberDoc.Text

end MemberDoc.Text

namespace MemberDoc.Source

/-- A text that starts with one of the words for promotion, in any case and as a whole word. -/
def StartsPromotion (text : Text) : Prop :=
  ∃ word behind, text = word ++ behind ∧ Text.lower word ∈ promotionWords ∧ Text.endsWord behind = true

/-- A parameter declares a property: behind its blanks and attributes it starts with a word for promotion, and this is
its first variable. -/
structure Promotes (parameter bare name : Text) : Prop where
  strips : Strips parameter bare
  word : StartsPromotion bare
  named : ∃ front behind, bare = front ++ '$' :: (name ++ behind) ∧ Text.IsFirstVariable front name behind

private theorem plain_promotionWords (word : Text) (known : word ∈ promotionWords) (d : Char) (member : d ∈ word) :
    d.toNat < 0x80 ∧ d ≠ 's' ∧ d ≠ 'k' := by
  have all : ∀ word ∈ promotionWords, (word.all fun d => d.toNat < 0x80 && d != 's' && d != 'k') = true := by decide
  have letter := List.all_eq_true.mp (all word known) d member
  simp only [Bool.and_eq_true, decide_eq_true_eq, bne_iff_ne] at letter
  exact ⟨letter.1.1, letter.1.2, letter.2⟩

theorem startsPromotion_iff (text : Text) : startsWithWord promotionWords text = true ↔ StartsPromotion text := by
  rw [startsWithWord, List.any_eq_true]
  constructor
  · rintro ⟨word, known, found⟩
    split at found
    · rename_i behind keyword
      obtain ⟨written, whole, folded⟩ := (Text.afterKeyword_eq_some_iff word text behind).mp keyword
      have same := (Text.map_foldCase_eq_iff written word (plain_promotionWords word known)).mp folded
      exact ⟨written, behind, whole, by rw [same]; exact known, found⟩
    · cases found
  · rintro ⟨word, behind, rfl, known, ends⟩
    have folded := (Text.map_foldCase_eq_iff word _ (plain_promotionWords _ known)).mpr rfl
    refine ⟨Text.lower word, known, ?_⟩
    rw [(Text.afterKeyword_eq_some_iff _ _ behind).mpr ⟨word, rfl, folded⟩]
    exact ends

theorem promoted_eq_some_iff (parameter name : Text) :
    promoted? parameter = some name ↔ ∃ bare, Promotes parameter bare name := by
  constructor
  · intro found
    unfold promoted? at found
    dsimp only at found
    split at found
    · rename_i starts
      exact ⟨stripAttributes none parameter, (stripAttributes_eq_iff _ _).mp rfl, (startsPromotion_iff _).mp starts,
        (Text.dollarName_eq_some_iff _ _).mp found⟩
    · cases found
  · rintro ⟨bare, strips, word, named⟩
    unfold promoted?
    dsimp only
    rw [(stripAttributes_eq_iff parameter bare).mpr strips, if_pos ((startsPromotion_iff bare).mpr word)]
    exact (Text.dollarName_eq_some_iff bare name).mpr named

/-- The parameters of a constructor are read one by one up to the bracket that closes them. Each of them that promotes
a property gives the name of it, in the order of the parameters. -/
theorem promotedParameters_joined (params : List Text) (rest : Text)
    (balanced : ∀ parameter ∈ params, IsParameter parameter) :
    promotedParameters (Text.joinWith [','] params ++ ')' :: rest) = params.filterMap promoted? ∧
      ∀ parameter name, promoted? parameter = some name ↔ ∃ bare, Promotes parameter bare name := by
  refine ⟨?_, promoted_eq_some_iff⟩
  unfold promotedParameters
  cases params with
  | nil => rfl
  | cons first others => rw [parameters_joined first others rest balanced]

/-- Parameters with and without a word for promotion, with brackets, commas and variables in attributes and values. -/
def shelfParameters : List Text :=
  ["#[Inject([1, 2])] #[Check(fn($x) => [$x])]\n PROTECTED readonly array $items = [1, (2)]".toList,
    " int $plain = 0".toList, " Private ?string $name = A::B[$other]".toList, " public int".toList]

theorem promotedParameters_joined_shelf :
    (∀ parameter ∈ shelfParameters, IsParameter parameter) ∧
      promotedParameters (Text.joinWith [','] shelfParameters ++ ')' :: " \x7b public $late, $more)".toList) =
        ["items".toList, "name".toList] ∧
      ∃ bare, Promotes " Private ?string $name = A::B[$other]".toList bare "name".toList := by
  have balanced : ∀ parameter ∈ shelfParameters, IsParameter parameter := by decide +kernel
  obtain ⟨names, exactly⟩ := promotedParameters_joined shelfParameters " \x7b public $late, $more)".toList balanced
  exact ⟨balanced, names.trans (by decide +kernel), (exactly _ _).mp (by decide +kernel)⟩

end MemberDoc.Source
