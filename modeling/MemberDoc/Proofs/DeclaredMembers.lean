import MemberDoc.Proofs.ClassSite
import MemberDoc.Proofs.MemberCode

set_option autoImplicit false

/-! Declared members are read back from a class that holds their texts, in the order in which they
were written. A value with the word `const` hides its property, and the parameters of a constructor
may declare further ones; both are found in every case of their letters. -/

namespace MemberDoc.Text

def isSimpleChar (c : Char) : Bool :=
  c.isAlphanum || " _\\|?,.-[]".toList.contains c

def IsSimple (text : Text) : Prop :=
  ∀ c ∈ text, isSimpleChar c = true

instance (text : Text) : Decidable (IsSimple text) :=
  decidable_of_iff (text.all isSimpleChar = true) List.all_eq_true

/-- A word stands in a text, in any case, with no word character at either side. -/
def HasWord (word text : Text) : Prop :=
  ∃ before middle after, text = before ++ (middle ++ after) ∧ lower middle = word ∧
    startsWord before.getLast? = true ∧ endsWord after = true

private theorem isSimpleChar_cases {c : Char} (simple : isSimpleChar c = true) :
    c.isAlphanum = true ∨ c ∈ " _\\|?,.-[]".toList := by
  rw [isSimpleChar, Bool.or_eq_true, List.contains_iff_mem] at simple
  exact simple

theorem isSimpleChar_ne {c d : Char} (simple : isSimpleChar c = true) (other : isSimpleChar d = false) : c ≠ d := by
  rintro rfl
  exact Bool.noConfusion (simple.symm.trans other)

private theorem isAscii_of_isSimpleChar {c : Char} (simple : isSimpleChar c = true) : c.toNat < 0x80 := by
  rcases isSimpleChar_cases simple with letter | mark
  · simp only [Char.isAlphanum, isAlpha_iff, Char.isDigit, Bool.or_eq_true, Bool.and_eq_true, decide_eq_true_eq,
      ge_iff_le, UInt32.le_iff_toNat_le] at letter
    have code : c.toNat = c.val.toNat := rfl
    have last : '9'.val.toNat = 57 := rfl
    omega
  · have small : ∀ c ∈ " _\\|?,.-[]".toList, c.toNat < 0x80 := forall_of_all (by decide)
    exact small c mark

private theorem foldCase_ascii {c : Char} (ascii : c.toNat < 0x80) : foldCase c = c.toLower := by
  rw [foldCase, if_neg (by omega), if_neg (by omega)]

private theorem afterKeyword_ascii (word text rest : Text) (ascii : ∀ c ∈ text, c.toNat < 0x80) :
    afterKeyword? word text = some rest ↔ ∃ middle, text = middle ++ rest ∧ lower middle = word := by
  rw [afterKeyword_eq_some_iff]
  refine exists_congr fun middle => and_congr_right fun whole => ?_
  have same : middle.map foldCase = lower middle :=
    List.map_congr_left fun c member => foldCase_ascii (ascii c (by rw [whole]; exact List.mem_append_left rest member))
  rw [same]

end MemberDoc.Text

namespace MemberDoc.Source

/-- The first word that is looked for starts here or later. -/
theorem hasConst_eq_true_iff (previous : Option Char) (text : Text) (ascii : ∀ c ∈ text, c.toNat < 0x80) :
    hasConst previous text = true ↔
      ∃ before middle after, text = before ++ (middle ++ after) ∧ Text.lower middle = "const".toList ∧
        Text.startsWord (before.getLast?.or previous) = true ∧ Text.endsWord after = true := by
  induction text generalizing previous with
  | nil =>
      refine iff_of_false (by simp [hasConst]) ?_
      rintro ⟨before, middle, after, whole, same, _⟩
      obtain ⟨_, rest⟩ := List.append_eq_nil_iff.mp whole.symm
      rw [(List.append_eq_nil_iff.mp rest).1] at same
      cases same
  | cons c text ih =>
      have here := Text.afterKeyword_ascii "const".toList (c :: text)
      have later := ih (some c) fun d member => ascii d (List.mem_cons_of_mem c member)
      have moved (before : Text) : (c :: before).getLast?.or previous = before.getLast?.or (some c) := by
        rw [List.getLast?_cons, Option.some_or, Option.or_some]
      rw [hasConst, Bool.or_eq_true, Bool.and_eq_true, later]
      constructor
      · rintro (⟨starts, found⟩ | ⟨before, middle, after, rfl, same, starts, ends⟩)
        · split at found
          · rename_i after known
            obtain ⟨middle, whole, same⟩ := (here after ascii).mp known
            exact ⟨[], middle, after, whole, same, by simpa using starts, found⟩
          · cases found
        · exact ⟨c :: before, middle, after, rfl, same, by rw [moved]; exact starts, ends⟩
      · rintro ⟨before, middle, after, whole, same, starts, ends⟩
        cases before with
        | nil =>
            have known := (here after ascii).mpr ⟨middle, whole, same⟩
            exact .inl ⟨by simpa using starts, by rw [known]; exact ends⟩
        | cons d before =>
            obtain ⟨rfl, rest⟩ := List.cons.inj whole
            exact .inr ⟨before, middle, after, rest, same, by rw [← moved]; exact starts, ends⟩

theorem hasConst_iff {text : Text} (simple : Text.IsSimple text) :
    hasConst none text = true ↔ Text.HasWord "const".toList text := by
  rw [hasConst_eq_true_iff none text fun c member => Text.isAscii_of_isSimpleChar (simple c member)]
  simp only [Option.or_none, Text.HasWord]

private theorem hasConst_behind (previous : Option Char) (front : Text) (c : Char) (text : Text)
    (found : hasConst (some c) text = true) : hasConst previous (front ++ c :: text) = true := by
  induction front generalizing previous with
  | nil => simp [hasConst, found]
  | cons d front ih => simp [hasConst, ih]

private theorem hasConst_blank (text : Text) : hasConst (some ' ') text = hasConst none text := by
  cases text <;> rfl

private theorem paren_of_opened {text : Text} {head : Text × Text}
    (found : (Text.lateName? text >>= fun named =>
      match Text.trimStart named.after with
      | '(' :: after => some (named.name, after)
      | _ => none) = some head) : '(' ∈ text := by
  obtain ⟨named, known, found⟩ := Option.bind_eq_some_iff.mp found
  obtain ⟨pad, split, _⟩ := Text.trimStart_split named.after
  split at found
  · rename_i after opens
    rw [(Text.lateName_append text named known).1, split, opens]
    simp
  · cases found

private theorem functionAt_of_not_mem {text : Text} (flat : '(' ∉ text) : functionAt? text = none := by
  cases known : functionAt? text with
  | none => rfl
  | some head =>
      exfalso
      apply flat
      unfold functionAt? at known
      obtain ⟨behind, keyword, found⟩ := Option.bind_eq_some_iff.mp known
      rw [(Text.afterKeyword_append _ _ _ keyword).1]
      apply List.mem_append_right
      cases behind with
      | nil => cases found
      | cons c rest =>
          apply List.mem_cons_of_mem
          dsimp only at found
          split at found
          · cases found
          · obtain ⟨pad, split, _⟩ := Text.trimStart_split rest
            split at found
            · rename_i bare opens
              rw [split, opens]
              exact List.mem_append_right _ (List.mem_cons_of_mem _ (paren_of_opened found))
            · exact paren_of_opened found

theorem function_of_not_mem (previous : Option Char) {text : Text} (flat : '(' ∉ text) :
    function? previous text = none := by
  induction text generalizing previous with
  | nil => rfl
  | cons c text ih =>
      rw [function_cons, functionAt_of_not_mem flat, ite_self]
      exact ih (some c) fun member => flat (List.mem_cons_of_mem c member)

private theorem isInert_of_isSimpleChar {c : Char} (simple : Text.isSimpleChar c = true) : isInert c = true := by
  have other (d : Char) (apart : Text.isSimpleChar d = false) : c ≠ d := Text.isSimpleChar_ne simple apart
  simp [isInert, isQuote, other '/' rfl, other '#' rfl, other '\x22' rfl, other '\x27' rfl]

theorem mask_inert {text : Text} (inert : ∀ c ∈ text, isInert c = true) : mask .code text = text :=
  (reads_inert text [] inert).shown_eq.symm

theorem ending_inert {text : Text} (inert : ∀ c ∈ text, isInert c = true) : ending .code text = .code := by
  have ended := (reads_inert text [] inert).ending_eq
  rw [List.append_nil] at ended
  exact ended

/-- A text that opens no string, comment or block and ends no statement. -/
def IsFlat (text : Text) : Prop :=
  ∀ c ∈ text, isInert c = true ∧ c ≠ '\x7b' ∧ c ≠ '\x7d' ∧ c ≠ ';'

instance (text : Text) : Decidable (IsFlat text) :=
  decidable_of_iff (text.all (fun c => decide (isInert c = true ∧ c ≠ '\x7b' ∧ c ≠ '\x7d' ∧ c ≠ ';')) = true)
    (by simp only [List.all_eq_true, decide_eq_true_eq, IsFlat])

theorem IsFlat.append {left right : Text} (first : IsFlat left) (second : IsFlat right) : IsFlat (left ++ right) := by
  intro c member
  rcases List.mem_append.mp member with inside | inside
  · exact first c inside
  · exact second c inside

theorem IsFlat.mask_eq {text : Text} (flat : IsFlat text) : mask .code text = text :=
  mask_inert fun c member => (flat c member).1

theorem IsFlat.isPlainCode {text : Text} (flat : IsFlat text) : IsPlainCode text := by
  refine ⟨ending_inert fun c member => (flat c member).1, ?_⟩
  rw [flat.mask_eq]
  exact fun c member => (flat c member).2

theorem isFlat_of_isSimple {text : Text} (simple : Text.IsSimple text) : IsFlat text := by
  intro c member
  have other (d : Char) (apart : Text.isSimpleChar d = false) : c ≠ d := Text.isSimpleChar_ne (simple c member) apart
  exact ⟨isInert_of_isSimpleChar (simple c member), other _ rfl, other _ rfl, other _ rfl⟩

private theorem isFlat_joinWith {separator : Text} {pieces : List Text} (between : IsFlat separator)
    (all : ∀ piece ∈ pieces, IsFlat piece) : IsFlat (Text.joinWith separator pieces) := by
  intro c member
  rcases Text.mem_joinWith c separator pieces member with inside | ⟨piece, listed, inside⟩
  · exact between c inside
  · exact all piece listed c inside

def isBrace (c : Char) : Bool :=
  c == '\x7b' || c == '\x7d'

private theorem braceDepth_filter (depth : Nat) (text : Text) :
    braceDepth? depth (text.filter isBrace) = braceDepth? depth text := by
  induction text generalizing depth with
  | nil => rfl
  | cons c text ih =>
      by_cases brace : isBrace c = true
      · rw [List.filter_cons_of_pos brace, braceDepth_cons, braceDepth_cons]
        simp only [ih]
      · rw [List.filter_cons_of_neg brace, braceDepth_cons]
        simp only [isBrace, Bool.or_eq_true, beq_iff_eq, not_or] at brace
        rw [if_neg brace.1, if_neg brace.2, ih]

private theorem filter_brace_blank {text : Text} (blank : ∀ c ∈ text, Text.isBlank c = true) :
    text.filter isBrace = [] := by
  rw [List.filter_eq_nil_iff]
  intro c member
  obtain ⟨notOpen, notClose, _⟩ := plain_of_blank text blank c member
  simp [isBrace, notOpen, notClose]

private theorem filter_brace_bodyLine (line : Text) : (bodyLine line).filter isBrace = line.filter isBrace := by
  unfold bodyLine
  split
  · rename_i empty
    obtain ⟨front, behind, whole, before, after⟩ := Text.trim_split line
    rw [empty, List.append_nil] at whole
    rw [whole, List.filter_append, filter_brace_blank before, filter_brace_blank after]
    rfl
  · simp [List.filter_append, indent, isBrace]

private theorem filter_brace_lines (text : Text) :
    (Text.lines text).flatMap (fun line => line.filter isBrace) = text.filter isBrace := by
  fun_induction Text.lines text with
  | case1 => rfl
  | case2 rest ih => rw [List.flatMap_cons, ih]; rfl
  | case3 rest ih => rw [List.flatMap_cons, ih]; rfl
  | case4 c rest _ _ ih =>
      rw [List.filter_cons, ← ih]
      cases Text.lines rest with
      | nil => simp [Text.consHead, List.filter_cons]
      | cons first others => by_cases brace : isBrace c = true <;> simp [Text.consHead, brace]

private theorem foldl_pushNew_of_nodup (before names : List Text) (distinct : (before ++ names).Nodup) :
    names.foldl Text.pushNew before = before ++ names := by
  induction names generalizing before with
  | nil => exact (List.append_nil before).symm
  | cons name names ih =>
      have fresh : ¬ before.contains name = true := by
        rw [List.contains_iff_mem]
        intro known
        exact (List.nodup_append.mp distinct).2.2 name known name List.mem_cons_self rfl
      have moved : before ++ name :: names = (before ++ [name]) ++ names := by simp
      rw [moved] at distinct ⊢
      rw [List.foldl_cons, Text.pushNew, if_neg fresh, ih _ distinct]

def classOpening (className : Text) : Text :=
  "<?php\nclass ".toList ++ (className ++ [' ', '\x7b'])

theorem qualified_ascii {className : Text} (ascii : Text.IsAsciiName className) :
    ClassName.qualified className = '\\' :: className := by
  have firm : Text.EndsFirm className := fun d last => ascii.not_blank d (List.mem_of_getLast? last)
  obtain ⟨c, rest, rfl, _⟩ := ascii.cons
  have notSlash := ascii.ne c '\\' List.mem_cons_self rfl
  rw [ClassName.qualified, Text.trim_of_firm c rest (ascii.not_blank c List.mem_cons_self) firm,
    List.dropWhile_cons_of_neg (by simpa using notSlash)]

private theorem short_ascii {className : Text} (ascii : Text.IsAsciiName className) :
    ClassName.short (ClassName.qualified className) = className := by
  have apart : '\\' ∉ className := fun member => ascii.ne '\\' '\\' member rfl rfl
  have last := Text.splitLast_of_last '\\' [] className apart
  rw [List.nil_append] at last
  rw [qualified_ascii ascii, ClassName.short, last]

private theorem enclosing_ascii {className : Text} (ascii : Text.IsAsciiName className) :
    ClassName.enclosing (ClassName.qualified className) = [] := by
  have apart : '\\' ∉ className := fun member => ascii.ne '\\' '\\' member rfl rfl
  have bare : ('\\' :: className).dropWhile (· == '\\') = className := by
    obtain ⟨c, rest, rfl, _⟩ := ascii.cons
    have notSlash := ascii.ne c '\\' List.mem_cons_self rfl
    rw [List.dropWhile_cons_of_pos rfl, List.dropWhile_cons_of_neg (by simpa using notSlash)]
  rw [qualified_ascii ascii, ClassName.enclosing, bare, Text.splitLast_of_not_mem '\\' className apart]

private theorem declarationAt_opening {className : Text} (ascii : Text.IsAsciiName className) (rest : Text) :
    declarationAt? ("class ".toList ++ (className ++ ' ' :: rest)) =
      some ⟨[], [], "class".toList, [' '], className, ' ' :: rest⟩ := by
  have late := ascii.lateName_eq (' ' :: rest) fun c more whole => by
    obtain ⟨rfl, _⟩ := List.cons.inj whole
    rfl
  have keyword : Text.keyword? kindWords ("class ".toList ++ (className ++ ' ' :: rest)) =
      some ("class".toList, ' ' :: (className ++ ' ' :: rest)) := by
    with_unfolding_all rfl
  rw [declarationAt_bare _ (by with_unfolding_all rfl), headAt?, keyword]
  simp [late, show Text.isBlank ' ' = true from rfl]

private theorem findDeclaration_opening {className : Text} (ascii : Text.IsAsciiName className) (rest : Text) :
    findDeclaration? className [] 0 ("<?php\nclass ".toList ++ (className ++ ' ' :: rest)) =
      some ⟨"<?php\n".toList, [], "class".toList, [' '], className, ' ' :: rest⟩ := by
  have passed (behind : Text) : findDeclaration? className [] 0 ("<?php\nclass ".toList ++ behind) =
      findDeclaration? className "\nphp?<".toList 0 ("class ".toList ++ behind) := by
    with_unfolding_all rfl
  have declared := declarationAt_opening ascii rest
  rw [passed]
  change findDeclaration? className "\nphp?<".toList 0 ('c' :: ("lass ".toList ++ (className ++ ' ' :: rest))) = _
  have starts : Text.startsWord "\nphp?<".toList.head? = true := by decide
  have access : isMemberAccess "\nphp?<".toList = false := by decide
  have same : Text.sameName className className = true := beq_self_eq_true _
  rw [findDeclaration_cons, if_pos starts]
  rw [show 'c' :: ("lass ".toList ++ (className ++ ' ' :: rest)) = "class ".toList ++ (className ++ ' ' :: rest) from rfl,
    declared]
  dsimp only
  rw [same, access]
  rfl

private theorem site_classOpening {className : Text} (ascii : Text.IsAsciiName className) (tail : Text) :
    site? (classOpening className ++ tail) className =
      some ⟨⟨"<?php\n".toList, [], "class".toList, [' '], className, ' ' :: '\x7b' :: mask .code tail⟩, [' '],
        mask .code tail⟩ := by
  have inert : ∀ c ∈ classOpening className, isInert c = true := by
    intro c member
    unfold classOpening at member
    rcases List.mem_append.mp member with inFront | later
    · have plain : ∀ c ∈ "<?php\nclass ".toList, isInert c = true := Text.forall_of_all (by decide)
      exact plain c inFront
    · rcases List.mem_append.mp later with inName | inBrace
      · exact isInert_of_isWord c (ascii.isWord c inName)
      · have plain : ∀ c ∈ [' ', '\x7b'], isInert c = true := Text.forall_of_all (by decide)
        exact plain c inBrace
  have shown : mask .code (classOpening className ++ tail) =
      "<?php\nclass ".toList ++ (className ++ ' ' :: '\x7b' :: mask .code tail) := by
    refine (reads_inert _ tail inert).mask_eq.trans ?_
    unfold classOpening
    simp only [List.append_assoc, List.cons_append, List.nil_append]
  rw [site_eq_some_iff, short_ascii ascii, enclosing_ascii ascii, shown]
  have outside : Text.sameName (namespaceOf "<?php\n".toList) [] = true := by decide
  exact ⟨findDeclaration_opening ascii _, outside, rfl⟩

end MemberDoc.Source

namespace MemberDoc

open Source

structure Argument.IsSimple (argument : Argument) : Prop where
  name : Text.IsSimple argument.name
  type : ∀ type, argument.type = some type → Text.IsSimple type
  default : ∀ value, argument.default = some value → Text.IsSimple value

structure DeclaredProperty.IsSimple (property : DeclaredProperty) : Prop where
  name : Text.IsAsciiName property.name
  notConst : Text.lower property.name ≠ "const".toList
  comment : Unclosed property.comment
  type : ∀ type, property.type = some type → Unclosed type
  default : ∀ value, property.default = some value → Text.IsSimple value

/-- The body of a simple method closes its braces and holds no string and no comment. -/
structure DeclaredMethod.IsSimple (method : DeclaredMethod) : Prop where
  name : Text.IsAsciiName method.name
  comment : Unclosed method.comment
  arguments : ∀ argument ∈ method.arguments, argument.IsSimple
  returns : ∀ type, method.returns = some type → Text.IsSimple type
  body : ∀ c ∈ method.body, isInert c = true
  balanced : braceDepth? 0 method.body = some 0

instance (option : Option Text) (property : Text → Prop) [DecidablePred property] :
    Decidable (∀ value, option = some value → property value) :=
  match option with
  | none => .isTrue fun _ known => nomatch known
  | some value => decidable_of_iff (property value)
      ⟨fun holds _ known => Option.some.inj known ▸ holds, fun all => all value rfl⟩

instance (argument : Argument) : Decidable argument.IsSimple :=
  decidable_of_iff (Text.IsSimple argument.name ∧ (∀ type, argument.type = some type → Text.IsSimple type) ∧
      ∀ value, argument.default = some value → Text.IsSimple value)
    ⟨fun ⟨name, type, default⟩ => ⟨name, type, default⟩, fun ⟨name, type, default⟩ => ⟨name, type, default⟩⟩

instance (property : DeclaredProperty) : Decidable property.IsSimple :=
  decidable_of_iff (Text.IsAsciiName property.name ∧ Text.lower property.name ≠ "const".toList ∧
      Unclosed property.comment ∧ (∀ type, property.type = some type → Unclosed type) ∧
      ∀ value, property.default = some value → Text.IsSimple value)
    ⟨fun ⟨name, notConst, comment, type, default⟩ => ⟨name, notConst, comment, type, default⟩,
      fun ⟨name, notConst, comment, type, default⟩ => ⟨name, notConst, comment, type, default⟩⟩

instance (method : DeclaredMethod) : Decidable method.IsSimple :=
  decidable_of_iff (Text.IsAsciiName method.name ∧ Unclosed method.comment ∧
      (∀ argument ∈ method.arguments, argument.IsSimple) ∧
      (∀ type, method.returns = some type → Text.IsSimple type) ∧ method.body.all isInert = true ∧
      braceDepth? 0 method.body = some 0)
    ⟨fun ⟨name, comment, arguments, returns, body, balanced⟩ =>
        ⟨name, comment, arguments, returns, List.all_eq_true.mp body, balanced⟩,
      fun ⟨name, comment, arguments, returns, body, balanced⟩ =>
        ⟨name, comment, arguments, returns, List.all_eq_true.mpr body, balanced⟩⟩

private theorem Argument.IsSimple.isFlat {argument : Argument} (simple : argument.IsSimple) :
    IsFlat argument.signature := by
  have dollar : IsFlat ['$'] := by decide
  unfold Argument.signature
  refine IsFlat.append (IsFlat.append (IsFlat.append ?_ dollar) (isFlat_of_isSimple simple.name)) ?_
  · cases known : argument.type with
    | none => decide
    | some type => exact (isFlat_of_isSimple (simple.type type known)).append (by decide)
  · cases known : argument.default with
    | none => decide
    | some value =>
        have equals : IsFlat [' ', '=', ' '] := by decide
        exact equals.append (isFlat_of_isSimple (simple.default value known))

private theorem DeclaredProperty.IsSimple.isEnclosed {property : DeclaredProperty} (simple : property.IsSimple) :
    property.IsEnclosed where
  name := simple.name
  comment := simple.comment
  type := simple.type
  default := fun value known => (isFlat_of_isSimple (simple.default value known)).isPlainCode

private theorem DeclaredMethod.IsSimple.bodyText_facts {method : DeclaredMethod} (simple : method.IsSimple) :
    (∀ c ∈ method.bodyText, isInert c = true) ∧ braceDepth? 0 method.bodyText = some 0 := by
  constructor
  · intro c member
    obtain ⟨line, listed, inside⟩ := List.mem_flatMap.mp member
    unfold bodyLine at inside
    split at inside
    · rw [List.mem_singleton.mp inside]
      decide
    · simp only [List.mem_append] at inside
      rcases inside with ((inIndent | inIndent) | inLine) | inFeed
      · exact (plain_indent c inIndent).1
      · exact (plain_indent c inIndent).1
      · exact simple.body c ((Text.infix_of_mem_lines method.body line listed).subset inLine)
      · rw [List.mem_singleton.mp inFeed]
        decide
  · have same : method.bodyText.filter isBrace = method.body.filter isBrace := by
      rw [DeclaredMethod.bodyText, List.filter_flatMap]
      simp only [filter_brace_bodyLine]
      exact filter_brace_lines method.body
    rw [← braceDepth_filter, same, braceDepth_filter, simple.balanced]

private theorem DeclaredMethod.IsSimple.isPlain {method : DeclaredMethod} (simple : method.IsSimple) :
    method.IsPlain := by
  obtain ⟨inert, balanced⟩ := simple.bodyText_facts
  refine ⟨simple.name, simple.comment, ?_, ?_, ending_inert inert, by rw [mask_inert inert]; exact balanced⟩
  · have between : IsFlat [',', ' '] := by decide
    refine (isFlat_joinWith between fun piece listed => ?_).isPlainCode
    obtain ⟨argument, among, rfl⟩ := List.mem_map.mp listed
    exact (simple.arguments argument among).isFlat
  · exact fun type known => (isFlat_of_isSimple (simple.returns type known)).isPlainCode

/-- A property whose value holds the word `const` is taken for a constant. -/
def DeclaredProperty.isHidden (property : DeclaredProperty) : Bool :=
  property.default.any (hasConst none)

private theorem DeclaredProperty.IsSimple.isPlain {property : DeclaredProperty} (simple : property.IsSimple)
    (visible : property.isHidden = false) : property.IsPlain := by
  refine ⟨simple.name, simple.notConst, simple.comment, simple.type, fun value known => ?_⟩
  have text := simple.default value known
  have flat := isFlat_of_isSimple text
  have absent (c : Char) (other : Text.isSimpleChar c = false) : c ∉ value := fun member =>
    Text.isSimpleChar_ne (text c member) other rfl
  refine ⟨flat.isPlainCode, ?_, ?_, ?_⟩
  · rw [flat.mask_eq]
    exact absent '$' rfl
  · rw [flat.mask_eq]
    exact function_of_not_mem none (absent '(' rfl)
  · rw [flat.mask_eq]
    simpa [DeclaredProperty.isHidden, known] using visible

private theorem DeclaredProperty.IsSimple.ofStatement_hidden {property : DeclaredProperty} (simple : property.IsSimple)
    (hidden : property.isHidden = true) : MemberNames.ofStatement property.statement = ⟨[], []⟩ := by
  cases known : property.default with
  | none => simp [DeclaredProperty.isHidden, known] at hidden
  | some value =>
      have found : hasConst none value = true := by simpa [DeclaredProperty.isHidden, known] using hidden
      have simpleValue := simple.default value known
      have equals : IsFlat [' ', '=', ' '] := by decide
      have shown : mask .code property.valueText = [' ', '=', ' '] ++ value := by
        cases value with
        | nil => cases found
        | cons c rest =>
            rw [DeclaredProperty.valueText, known]
            exact (equals.append (isFlat_of_isSimple simpleValue)).mask_eq
      obtain ⟨bare, function, const, starts, _⟩ :=
        propertyHead_facts property.visibility property.isStatic (property.name ++ ([' ', '=', ' '] ++ value))
      have noFunction : function? (some '$') (property.name ++ ([' ', '=', ' '] ++ value)) = none := by
        apply function_of_not_mem
        intro member
        rcases List.mem_append.mp member with inName | later
        · exact simple.name.ne '(' '(' inName rfl rfl
        · rcases List.mem_append.mp later with inMark | inValue
          · exact absurd inMark (by decide)
          · exact Text.isSimpleChar_ne (simpleValue _ inValue) (show Text.isSimpleChar '(' = false from rfl) rfl
      have hides : hasConst (some '$') (property.name ++ ([' ', '=', ' '] ++ value)) = true := by
        have behind := hasConst_behind (some '$') (property.name ++ [' ', '=']) ' ' value
          ((hasConst_blank value).trans found)
        rw [List.append_assoc] at behind
        exact behind
      unfold MemberNames.ofStatement MemberNames.addStatement DeclaredProperty.statement
      rw [shown, bare]
      dsimp only
      rw [function, noFunction]
      dsimp only
      rw [starts, const, hides]
      rfl

def DeclaredProperty.names (property : DeclaredProperty) : MemberNames :=
  ⟨if property.isHidden then [] else [property.name], []⟩

def DeclaredMethod.names (method : DeclaredMethod) : MemberNames :=
  ⟨method.promoted, [method.name]⟩

private theorem DeclaredProperty.IsSimple.reads {property : DeclaredProperty} (simple : property.IsSimple)
    (rest : Text) :
    ∃ shown, Reads .code property.code rest shown .code ∧ IsComplete shown ∧
      memberNames shown = MemberNames.merge ⟨[], []⟩ property.names := by
  obtain ⟨shown, reads, holds, _⟩ := property.reads_statement simple.isEnclosed rest
  refine ⟨shown, reads, holds.complete, ?_⟩
  rw [holds.memberNames_eq, DeclaredProperty.names]
  cases hidden : property.isHidden with
  | true =>
      rw [simple.ofStatement_hidden hidden]
      rfl
  | false =>
      have plain := simple.isPlain hidden
      obtain ⟨part, noDollar⟩ := property.isValuePart plain
      rw [DeclaredProperty.statement, ofStatement_property _ _ _ _ plain.name part plain.notConst noDollar]
      rfl

private theorem DeclaredMethod.IsSimple.reads {method : DeclaredMethod} (simple : method.IsSimple) (rest : Text) :
    ∃ shown, Reads .code method.code rest shown .code ∧ IsComplete shown ∧
      memberNames shown = MemberNames.merge ⟨[], []⟩ method.names := by
  obtain ⟨shown, reads, holds⟩ := method.reads_statement simple.isPlain rest
  refine ⟨shown, reads, holds.complete, ?_⟩
  rw [holds.memberNames_eq, method.ofStatement_eq simple.name]
  rfl

def classSource (className : Text) (properties : List DeclaredProperty) (methods : List DeclaredMethod) : Text :=
  "<?php\nclass ".toList ++ className ++ " \x7b\n".toList ++
    Text.joinWith ['\n', '\n'] (properties.map DeclaredProperty.code) ++ ['\n'] ++
    Text.joinWith ['\n', '\n'] (methods.map DeclaredMethod.code) ++ "\n\x7d\n".toList

/-- Texts that are each read as complete parts are read as one part, which declares what they declare. -/
theorem reads_members {Member : Type} (members : List Member) (code : Member → Text) (own : Member → MemberNames)
    (each : ∀ member ∈ members, ∀ rest, ∃ shown, Reads .code (code member) rest shown .code ∧ IsComplete shown ∧
      memberNames shown = MemberNames.merge ⟨[], []⟩ (own member)) (rest : Text) :
    ∃ shown, Reads .code (Text.joinWith ['\n', '\n'] (members.map code)) rest shown .code ∧ IsComplete shown ∧
      ∀ before : MemberNames, before.merge (memberNames shown) =
        ⟨(members.flatMap fun member => (own member).properties).foldl Text.pushNew before.properties,
          (members.flatMap fun member => (own member).methods).foldl Text.pushNew before.methods⟩ := by
  have masked : ∀ member ∈ members, ∀ rest, Reads .code (code member) rest (mask .code (code member)) .code ∧
      IsComplete (mask .code (code member)) ∧
      memberNames (mask .code (code member)) = MemberNames.merge ⟨[], []⟩ (own member) := by
    intro member among more
    obtain ⟨shown, reads, facts⟩ := each member among more
    rw [← reads.shown_eq]
    exact ⟨reads, facts⟩
  have joined := memberNames_joined members (fun member => mask .code (code member)) own
    (fun member among => (masked member among []).2.1) fun member among => (masked member among []).2.2
  refine ⟨_, reads_joined (members.map code) (fun text listed more => ?_) rest, ?_⟩
  · obtain ⟨member, among, rfl⟩ := List.mem_map.mp listed
    exact (masked member among more).1
  · rw [List.map_map]
    exact joined

theorem classSource_eq (className : Text) (properties : List DeclaredProperty) (methods : List DeclaredMethod) :
    classSource className properties methods = classOpening className ++
      (['\n'] ++ (Text.joinWith ['\n', '\n'] (properties.map DeclaredProperty.code) ++ (['\n'] ++
        (Text.joinWith ['\n', '\n'] (methods.map DeclaredMethod.code) ++ "\n\x7d\n".toList)))) := by
  unfold classSource classOpening
  simp only [List.append_assoc, List.cons_append, List.nil_append]
  rfl

private theorem memberNames_spaced {first second : Text} (firstComplete : IsComplete first)
    (secondComplete : IsComplete second) :
    IsComplete (['\n'] ++ (first ++ (['\n'] ++ (second ++ ['\n'])))) ∧
      memberNames (['\n'] ++ (first ++ (['\n'] ++ (second ++ ['\n'])))) =
        (memberNames first).merge (memberNames second) := by
  have blank : ∀ c ∈ ['\n'], Text.isBlank c = true := Text.forall_of_all (by decide)
  have feed := isComplete_blank ['\n'] blank
  have nothing := memberNames_blank ['\n'] blank
  refine ⟨feed.append (firstComplete.append (feed.append (secondComplete.append feed))), ?_⟩
  rw [feed.memberNames_append, nothing, merge_memberNames, firstComplete.memberNames_append, feed.memberNames_append,
    nothing, merge_memberNames, secondComplete.memberNames_append, nothing]
  rfl

private theorem visible_names (properties : List DeclaredProperty) :
    (properties.flatMap fun property => property.names.properties) =
      (properties.filter fun property => !property.isHidden).map (·.name) := by
  induction properties with
  | nil => rfl
  | cons property properties ih =>
      rw [List.flatMap_cons, ih]
      cases hidden : property.isHidden <;> simp [DeclaredProperty.names, hidden]

/-- A class of simple members declares the properties that are not hidden and those of constructors, in order
and each once, and all methods. -/
theorem outline_classSource {className : Text} (ascii : Text.IsAsciiName className)
    {properties : List DeclaredProperty} {methods : List DeclaredMethod}
    (simpleProperties : ∀ property ∈ properties, property.IsSimple)
    (simpleMethods : ∀ method ∈ methods, method.IsSimple) :
    ∃ outline, Source.outline (classSource className properties methods) className = .ok outline ∧
      outline.properties = ((properties.filter fun property => !property.isHidden).map (·.name) ++
        methods.flatMap (·.promoted)).foldl Text.pushNew [] ∧
      outline.methods = (methods.map (·.name)).foldl Text.pushNew [] := by
  have closing : ∀ c ∈ "\n\x7d\n".toList, isInert c = true := Text.forall_of_all (by decide)
  have feed (rest : Text) : Reads .code ['\n'] rest ['\n'] .code := reads_inert _ _ (Text.forall_of_all (by decide))
  obtain ⟨shownMethods, readsMethods, completeMethods, namesMethods⟩ := reads_members methods DeclaredMethod.code
    DeclaredMethod.names (fun method among => (simpleMethods method among).reads) "\n\x7d\n".toList
  obtain ⟨shownProperties, readsProperties, completeProperties, namesProperties⟩ := reads_members properties
    DeclaredProperty.code DeclaredProperty.names (fun property among => (simpleProperties property among).reads)
    (['\n'] ++ (Text.joinWith ['\n', '\n'] (methods.map DeclaredMethod.code) ++ "\n\x7d\n".toList))
  have site := site_classOpening ascii (['\n'] ++
    (Text.joinWith ['\n', '\n'] (properties.map DeclaredProperty.code) ++ (['\n'] ++
      (Text.joinWith ['\n', '\n'] (methods.map DeclaredMethod.code) ++ "\n\x7d\n".toList))))
  rw [← classSource_eq, (feed _).mask_eq, readsProperties.mask_eq, (feed _).mask_eq, readsMethods.mask_eq,
    mask_inert closing] at site
  obtain ⟨complete, names⟩ := memberNames_spaced completeProperties completeMethods
  have body : bodyOf 0 (['\n'] ++ (shownProperties ++ (['\n'] ++ (shownMethods ++ "\n\x7d\n".toList)))) =
      ['\n'] ++ (shownProperties ++ (['\n'] ++ (shownMethods ++ ['\n']))) := by
    have ended := bodyOf_before_brace _ ['\n'] complete.closed
    simp only [List.append_assoc] at ended
    exact ended
  have declared : memberNames (bodyOf 0 (['\n'] ++ (shownProperties ++ (['\n'] ++ (shownMethods ++
      "\n\x7d\n".toList))))) = ⟨((properties.filter fun property => !property.isHidden).map (·.name) ++
        methods.flatMap (·.promoted)).foldl Text.pushNew [], (methods.map (·.name)).foldl Text.pushNew []⟩ := by
    have noMethods : (properties.flatMap fun property => property.names.methods) = [] :=
      List.flatMap_eq_nil_iff.mpr fun _ _ => rfl
    have allMethods : (methods.flatMap fun method => method.names.methods) = methods.map (·.name) :=
      List.map_eq_flatMap.symm
    rw [body, names, ← merge_memberNames shownProperties, namesProperties, namesMethods, visible_names, noMethods,
      allMethods, List.foldl_append]
    rfl
  refine ⟨_, (outline_eq_ok_iff _ _ _).mpr ⟨_, site, rfl⟩, ?_, ?_⟩
  · exact congrArg MemberNames.properties declared
  · exact congrArg MemberNames.methods declared

theorem DeclaredProperty.IsSimple.isHidden_iff {property : DeclaredProperty} (simple : property.IsSimple) :
    property.isHidden = true ↔ ∃ value, property.default = some value ∧ Text.HasWord "const".toList value := by
  unfold DeclaredProperty.isHidden
  cases known : property.default with
  | none => simp
  | some value => simp [hasConst_iff (simple.default value known)]

/-- Members are read back from their texts in order: all methods, and all properties unless a value holds the
word `const` or a constructor declares further ones. -/
theorem members_of_classSource {className : Text} (ascii : Text.IsAsciiName className)
    {properties : List DeclaredProperty} {methods : List DeclaredMethod}
    (simpleProperties : ∀ property ∈ properties, property.IsSimple)
    (simpleMethods : ∀ method ∈ methods, method.IsSimple)
    (distinctProperties : (properties.map (·.name)).Nodup)
    (distinctMethods : methods.Pairwise fun first second => Text.sameName first.name second.name = false) :
    ∃ outline, Source.outline (classSource className properties methods) className = .ok outline ∧
      outline.methods = methods.map (·.name) ∧
      outline.properties = ((properties.filter fun property => !property.isHidden).map (·.name) ++
        methods.flatMap (·.promoted)).foldl Text.pushNew [] ∧
      ((∀ property ∈ properties, ∀ value, property.default = some value → ¬ Text.HasWord "const".toList value) →
        (∀ method ∈ methods, Text.sameName method.name "__construct".toList = false) →
        outline.properties = properties.map (·.name)) := by
  obtain ⟨outline, read, declared, named⟩ := outline_classSource ascii simpleProperties simpleMethods
  have distinctNames : (methods.map (·.name)).Nodup := by
    rw [List.Nodup, List.pairwise_map]
    refine distinctMethods.imp fun {first second} apart same => ?_
    rw [same, Text.sameName, beq_self_eq_true] at apart
    cases apart
  refine ⟨outline, read, ?_, declared, fun noConst noConstructor => ?_⟩
  · rw [named, foldl_pushNew_of_nodup [] _ distinctNames, List.nil_append]
  · have visible : properties.filter (fun property => !property.isHidden) = properties := by
      rw [List.filter_eq_self]
      intro property among
      rw [Bool.not_eq_true', Bool.eq_false_iff, ne_eq, (simpleProperties property among).isHidden_iff]
      rintro ⟨value, known, word⟩
      exact noConst property among value known word
    have unpromoted : methods.flatMap (·.promoted) = [] := by
      rw [List.flatMap_eq_nil_iff]
      intro method among
      rw [DeclaredMethod.promoted, noConstructor method among]
      rfl
    rw [declared, visible, unpromoted, List.append_nil, foldl_pushNew_of_nodup [] _ distinctProperties, List.nil_append]

def priceProperty : DeclaredProperty :=
  ⟨"price".toList, some "int|null".toList, some "[1, -2.5]".toList, false, "Net price\n\n* per item".toList, .owner⟩

/-- A name that differs in case only, and a value that goes on behind the letters of `const`. -/
def ceilingProperty : DeclaredProperty :=
  ⟨"Price".toList, none, some "constant".toList, true, [], .everyone⟩

def totalMethod : DeclaredMethod :=
  ⟨"total".toList, false, [⟨"rate".toList, some "?float".toList, some "1.0".toList⟩, ⟨"items".toList, none, none⟩],
    some "?float".toList, "Sum of all".toList, .descendants,
    "foreach ($items as $item) \x7b\n    if ($item) \x7b\n\n    \x7d\n\x7d\nreturn $rate;".toList⟩

def keywordMethod : DeclaredMethod :=
  ⟨"function".toList, true, [], none, [], .everyone, []⟩

private theorem isSimple_priceMembers :
    (∀ property ∈ [priceProperty, ceilingProperty], property.IsSimple) ∧
      ∀ method ∈ [totalMethod, keywordMethod], method.IsSimple := by
  decide +kernel

theorem members_of_classSource_price :
    Text.IsAsciiName "X".toList ∧ (∀ property ∈ [priceProperty, ceilingProperty], property.IsSimple) ∧
      (∀ method ∈ [totalMethod, keywordMethod], method.IsSimple) ∧
      ∃ outline, Source.outline (classSource "X".toList [priceProperty, ceilingProperty] [totalMethod, keywordMethod])
          "X".toList = .ok outline ∧
        outline.methods = ["total".toList, "function".toList] ∧ outline.properties = ["price".toList, "Price".toList] := by
  obtain ⟨simpleProperties, simpleMethods⟩ := isSimple_priceMembers
  have visible : ∀ property ∈ [priceProperty, ceilingProperty], property.isHidden = false := by decide
  have noConst : ∀ property ∈ [priceProperty, ceilingProperty], ∀ value, property.default = some value →
      ¬ Text.HasWord "const".toList value := by
    intro property among value known word
    have found := (simpleProperties property among).isHidden_iff.mpr ⟨value, known, word⟩
    exact Bool.noConfusion (found.symm.trans (visible property among))
  have ascii : Text.IsAsciiName "X".toList := by decide
  obtain ⟨outline, read, methods, _, properties⟩ :=
    members_of_classSource ascii simpleProperties simpleMethods (by decide) (by decide)
  exact ⟨ascii, simpleProperties, simpleMethods, outline, read, methods, properties noConst (by decide)⟩

def limitProperty : DeclaredProperty :=
  ⟨"p".toList, none, some "CONST".toList, false, [], .everyone⟩

/-- A constructor in another case, with a parameter that declares a property. -/
def constructorMethod : DeclaredMethod :=
  ⟨"__Construct".toList, false, [⟨"x".toList, some "public int".toList, none⟩], none, [], .everyone, []⟩

/-- Neither the word `const` nor the name of a constructor has to be written in small letters. -/
theorem capitals_change_members :
    limitProperty.IsSimple ∧ constructorMethod.IsSimple ∧
      limitProperty.default = some "CONST".toList ∧ ¬ "const".toList <:+: "CONST".toList ∧
      constructorMethod.name ≠ "__construct".toList ∧
      (Source.outline (classSource "X".toList [limitProperty] [constructorMethod]) "X".toList).toOption.map
        (·.properties) = some ["x".toList] ∧ [limitProperty.name] ≠ ["x".toList] := by
  refine ⟨by decide, by decide, rfl, by decide, by decide, ?_, by decide⟩
  decide +kernel

end MemberDoc
