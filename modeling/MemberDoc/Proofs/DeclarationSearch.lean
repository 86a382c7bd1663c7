import MemberDoc.Proofs.Lexemes

set_option autoImplicit false

/-! The search for a class declaration. It does not depend on how long the blanks are that a comment
leaves in a mask, nor on what stands behind the brace that opens the class. -/

namespace MemberDoc.Source

/-! ### Modifiers, one at a time -/

def headAt? (modifiers start : Text) : Option Declaration := do
  let (keyword, behind) ← Text.keyword? kindWords start
  match behind with
  | [] => none
  | c :: rest =>
      let found ← if Text.isBlank c then Text.lateName? rest else none
      return { before := [], modifiers, keyword, gap := c :: found.gap, name := found.name, after := found.after }

private theorem lower_modifierWords : ∀ word ∈ modifierWords, word.all Char.isLower = true := by
  decide

theorem lower_kindWords : ∀ word ∈ kindWords, word.all Char.isLower = true := by
  decide

theorem afterModifier_append (text rest : Text) (found : afterModifier? text = some rest) :
    ∃ modifier, text = modifier ++ rest ∧ modifier ≠ [] ∧ ∃ last, modifier.getLast? = some last ∧
      Text.isBlank last = true := by
  unfold afterModifier? at found
  obtain ⟨⟨keyword, behind⟩, known, blanks⟩ := Option.bind_eq_some_iff.mp found
  obtain ⟨whole, _⟩ := Text.keyword_append modifierWords text keyword behind known
  obtain ⟨c, pad, spaced, blank, padded⟩ := Text.afterBlanks_append behind rest blanks
  refine ⟨keyword ++ c :: pad, by rw [whole, spaced, List.append_assoc], by simp, ?_⟩
  have nonempty := List.cons_ne_nil c pad
  refine ⟨_, by rw [Text.getLast_suffix _ _ nonempty, List.getLast?_eq_some_getLast nonempty], ?_⟩
  rcases List.mem_cons.mp (List.getLast_mem nonempty) with same | inside
  · rw [same]
    exact blank
  · exact padded _ inside

theorem skipModifiers_eq (fuel : Nat) (text : Text) (enough : text.length ≤ fuel) :
    skipModifiers fuel text = (splitModifiers text).2 := by
  induction fuel using Nat.strongRecOn generalizing text with
  | ind fuel ih =>
      cases fuel with
      | zero =>
          have empty : text = [] := List.length_eq_zero_iff.mp (by omega)
          subst empty
          rfl
      | succ fuel =>
          rw [skipModifiers, splitModifiers]
          cases found : afterModifier? text with
          | none => rfl
          | some rest =>
              obtain ⟨modifier, whole, nonempty, _⟩ := afterModifier_append text rest found
              have positive := List.length_pos_iff.mpr nonempty
              have shorter : rest.length < text.length := by
                rw [whole, List.length_append]
                omega
              have left := ih fuel (by omega) rest (by omega)
              have right := ih rest.length (by omega) rest (Nat.le_refl _)
              exact left.trans right.symm

theorem splitModifiers_append (text : Text) : text = (splitModifiers text).1 ++ (splitModifiers text).2 := by
  generalize size : text.length = count
  induction count using Nat.strongRecOn generalizing text with
  | ind count ih =>
      rw [splitModifiers]
      cases found : afterModifier? text with
      | none => rfl
      | some rest =>
          obtain ⟨modifier, whole, nonempty, _⟩ := afterModifier_append text rest found
          have positive := List.length_pos_iff.mpr nonempty
          have sizes : text.length = modifier.length + rest.length := by
            rw [whole, List.length_append]
          have deeper := ih rest.length (by omega) rest rfl
          change text = text.take (text.length - (skipModifiers rest.length rest).length) ++
            skipModifiers rest.length rest
          rw [skipModifiers_eq _ _ (Nat.le_refl _)]
          have whole' : text = (modifier ++ (splitModifiers rest).1) ++ (splitModifiers rest).2 := by
            rw [List.append_assoc, ← deeper, ← whole]
          generalize (splitModifiers rest).2 = start at whole'
          subst whole'
          rw [List.length_append, Nat.add_sub_cancel, List.take_left]

theorem splitModifiers_step (modifier rest : Text) (found : afterModifier? (modifier ++ rest) = some rest) :
    splitModifiers (modifier ++ rest) = (modifier ++ (splitModifiers rest).1, (splitModifiers rest).2) := by
  have whole := splitModifiers_append (modifier ++ rest)
  have second : (splitModifiers (modifier ++ rest)).2 = (splitModifiers rest).2 := by
    rw [splitModifiers, found]
    exact skipModifiers_eq _ _ (Nat.le_refl _)
  have inner := splitModifiers_append rest
  rw [second] at whole
  have lefts : modifier ++ (splitModifiers rest).1 ++ (splitModifiers rest).2 =
      (splitModifiers (modifier ++ rest)).1 ++ (splitModifiers rest).2 := by
    rw [List.append_assoc, ← inner]
    exact whole
  exact Prod.ext (List.append_cancel_right lefts).symm second

theorem declarationAt_eq (text : Text) :
    declarationAt? text = headAt? (splitModifiers text).1 (splitModifiers text).2 := rfl

theorem declarationAt_bare (text : Text) (bare : afterModifier? text = none) :
    declarationAt? text = headAt? [] text := by
  rw [declarationAt_eq, splitModifiers, bare]

theorem headAt_modifiers (modifiers start : Text) :
    headAt? modifiers start = (headAt? [] start).map fun found => { found with modifiers := modifiers } := by
  unfold headAt?
  cases Text.keyword? kindWords start with
  | none => rfl
  | some parts =>
      obtain ⟨keyword, behind⟩ := parts
      cases behind with
      | nil => rfl
      | cons c rest =>
          by_cases blank : Text.isBlank c = true
          · cases known : Text.lateName? rest <;> simp [blank, known]
          · simp [blank]

theorem declarationAt_modified (modifier rest : Text) (found : afterModifier? (modifier ++ rest) = some rest) :
    declarationAt? (modifier ++ rest) =
      (declarationAt? rest).map fun found => { found with modifiers := modifier ++ found.modifiers } := by
  rw [declarationAt_eq, declarationAt_eq, splitModifiers_step modifier rest found, headAt_modifiers,
    headAt_modifiers (splitModifiers rest).1]
  cases headAt? [] (splitModifiers rest).2 <;> rfl

/-- What a modifier does to a text that a word cannot run out of: there is none, it ends inside, or
the text ends with its blanks. -/
inductive ModifierAt (text : Text) (last : Char) : Prop where
  | missing (bare : ∀ more, afterModifier? (text ++ more) = none)
  | inside (modifier rest : Text) (whole : text = modifier ++ rest) (nonempty : modifier ≠ [])
      (ends : rest.getLast? = some last) (found : ∀ more, afterModifier? (text ++ more) = some (rest ++ more))
  | whole (blank : Text.isBlank last = true)
      (found : ∀ more, afterModifier? (text ++ more) = some (Text.trimStart more))

theorem modifierAt (text : Text) (last : Char) (ends : text.getLast? = some last)
    (apart : Text.isWord last = false) : ModifierAt text last := by
  have extended (more : Text) := Text.keyword_extend modifierWords text more last lower_modifierWords ends apart
  have equation (more : Text) : afterModifier? (text ++ more) =
      (Text.keyword? modifierWords text).bind fun found => Text.afterBlanks? (found.2 ++ more) := by
    unfold afterModifier?
    rw [extended more]
    cases Text.keyword? modifierWords text <;> rfl
  cases found : Text.keyword? modifierWords text with
  | none =>
      rw [found] at equation
      exact .missing equation
  | some parts =>
      obtain ⟨keyword, behind⟩ := parts
      rw [found] at equation
      obtain ⟨whole, word, member, _, known⟩ := Text.keyword_append modifierWords text keyword behind found
      have lasting := (Text.afterKeyword_extend word text [] last (lower_modifierWords word member) ends apart).2
        behind known
      cases behind with
      | nil => cases lasting
      | cons c more =>
          by_cases blank : Text.isBlank c = true
          · have spaced (rest : Text) : afterModifier? (text ++ rest) = some (Text.trimStart (more ++ rest)) := by
              rw [equation, Option.bind_some, List.cons_append, Text.afterBlanks?, if_pos blank]
            by_cases empty : Text.trimStart more = []
            · have allBlank : ∀ d ∈ c :: more, Text.isBlank d = true := by
                intro d inside
                rcases List.mem_cons.mp inside with rfl | later
                · exact blank
                · exact Text.trimStart_eq_nil more empty d later
              refine .whole (allBlank last (List.mem_of_getLast? lasting)) fun rest => ?_
              rw [spaced, Text.trimStart_append, if_pos empty]
            · obtain ⟨pad, split, _⟩ := Text.trimStart_split more
              refine .inside (keyword ++ c :: pad) (Text.trimStart more) ?_ (by simp) ?_ fun rest => ?_
              · rw [whole, List.append_assoc, List.cons_append, ← split]
              · have nonempty : more ≠ [] := fun ended => empty (by rw [ended]; rfl)
                apply Text.getLast_trimStart more last _ empty
                rw [← lasting]
                exact (Text.getLast_suffix [c] more nonempty).symm
              · rw [spaced, Text.trimStart_append, if_neg empty]
          · refine .missing fun rest => ?_
            rw [equation, Option.bind_some, List.cons_append, Text.afterBlanks?, if_neg blank]

theorem headAt_cases (text : Text) (last : Char) (ends : text.getLast? = some last)
    (apart : Text.isWord last = false) :
    (∀ more, headAt? [] (text ++ more) = none) ∨
      ∃ keyword c rest, text = keyword ++ c :: rest ∧ Text.isBlank c = true ∧ (c :: rest).getLast? = some last ∧
        ∀ more, headAt? [] (text ++ more) =
          (Text.lateName? (rest ++ more)).map fun found => ⟨[], [], keyword, c :: found.gap, found.name, found.after⟩ := by
  have extended (more : Text) := Text.keyword_extend kindWords text more last lower_kindWords ends apart
  cases found : Text.keyword? kindWords text with
  | none =>
      refine .inl fun more => ?_
      unfold headAt?
      rw [extended, found]
      rfl
  | some parts =>
      obtain ⟨keyword, behind⟩ := parts
      obtain ⟨whole, word, member, _, known⟩ := Text.keyword_append kindWords text keyword behind found
      have lasting := (Text.afterKeyword_extend word text [] last (lower_kindWords word member) ends apart).2
        behind known
      cases behind with
      | nil => cases lasting
      | cons c rest =>
          by_cases blank : Text.isBlank c = true
          · refine .inr ⟨keyword, c, rest, whole, blank, lasting, fun more => ?_⟩
            unfold headAt?
            rw [extended, found]
            cases known : Text.lateName? (rest ++ more) <;> simp [blank, known]
          · refine .inl fun more => ?_
            unfold headAt?
            rw [extended, found]
            simp [blank]

/-! ### Attempts around a pad -/

/-- How an attempt changes when a pad inside the text is exchanged. The declaration is missing, ends
before the pad, has the pad in its gap or among its modifiers, or there was no pad and its name runs
across the place. -/
inductive AttemptAround (lead pad other tail : Text) : Prop where
  | missing (before : declarationAt? (lead ++ (pad ++ tail)) = none)
      (after : declarationAt? (lead ++ (other ++ tail)) = none)
  | inside (modifiers keyword gap name rest : Text) (whole : lead = modifiers ++ keyword ++ gap ++ name ++ rest)
      (named : name ≠ [])
      (before : declarationAt? (lead ++ (pad ++ tail)) =
        some ⟨[], modifiers, keyword, gap, name, rest ++ (pad ++ tail)⟩)
      (after : declarationAt? (lead ++ (other ++ tail)) =
        some ⟨[], modifiers, keyword, gap, name, rest ++ (other ++ tail)⟩)
  | gapped (modifiers keyword gap behind name rest : Text) (spaced : gap ≠ []) (named : name ≠ [])
      (whole : lead = modifiers ++ keyword ++ gap) (further : tail = behind ++ name ++ rest)
      (before : declarationAt? (lead ++ (pad ++ tail)) =
        some ⟨[], modifiers, keyword, gap ++ pad ++ behind, name, rest⟩)
      (after : declarationAt? (lead ++ (other ++ tail)) =
        some ⟨[], modifiers, keyword, gap ++ other ++ behind, name, rest⟩)
  | modified (modifiers keyword gap name rest : Text) (named : name ≠ [])
      (further : tail = modifiers ++ keyword ++ gap ++ name ++ rest)
      (before : declarationAt? (lead ++ (pad ++ tail)) =
        some ⟨[], lead ++ pad ++ modifiers, keyword, gap, name, rest⟩)
      (after : declarationAt? (lead ++ (other ++ tail)) =
        some ⟨[], lead ++ other ++ modifiers, keyword, gap, name, rest⟩)
  | across (found : Declaration) (unpadded : pad = [])
      (before : declarationAt? (lead ++ (pad ++ tail)) = some found) (length : lead.length < found.text.length)
      (early : found.modifiers.length < lead.length)

private theorem keyword_starts (text keyword rest : Text)
    (found : Text.keyword? kindWords text = some (keyword, rest)) :
    ∃ c word, keyword = c :: word ∧ Text.isWord c = true := by
  obtain ⟨whole, spelled, member, taken, here⟩ := Text.keyword_append kindWords text keyword rest found
  cases spelled with
  | nil => exact absurd member (by decide)
  | cons expected spelled =>
      have lower := lower_kindWords _ member
      rw [List.all_cons, Bool.and_eq_true] at lower
      cases text with
      | nil => cases here
      | cons c text =>
          refine ⟨c, text.take spelled.length, taken, ?_⟩
          rw [Text.afterKeyword?] at here
          split at here
          · rename_i folded
            exact Text.isWord_of_foldCase c expected lower.1 folded
          · cases here

structure Declaration.IsAt (found : Declaration) (text : Text) : Prop where
  whole : text = found.text ++ found.after
  before : found.before = []
  keyword : ∃ c word, found.keyword = c :: word ∧ Text.isWord c = true
  named : found.name ≠ []
  nameChars : ∀ c ∈ found.name, Text.isNameChar c = true
  modifiers : found.modifiers = (splitModifiers text).1

private theorem headAt_parts (start : Text) (found : Declaration) (known : headAt? [] start = some found) :
    start = found.keyword ++ found.gap ++ found.name ++ found.after ∧ found.before = [] ∧
      (∃ c word, found.keyword = c :: word ∧ Text.isWord c = true) ∧ found.name ≠ [] ∧
      ∀ c ∈ found.name, Text.isNameChar c = true := by
  unfold headAt? at known
  obtain ⟨⟨keyword, behind⟩, word, rest⟩ := Option.bind_eq_some_iff.mp known
  have whole := (Text.keyword_append kindWords start keyword behind word).1
  have starts := keyword_starts start keyword behind word
  cases behind with
  | nil => cases rest
  | cons c text =>
      by_cases blank : Text.isBlank c = true
      · cases attempt : Text.lateName? text with
        | none => simp [blank, attempt] at rest
        | some name =>
            simp only [blank, attempt, if_true, Option.bind_eq_bind, Option.bind_some, Option.pure_def,
              Option.some.injEq] at rest
            subst rest
            obtain ⟨split, named, _, chars⟩ := Text.lateName_append text name attempt
            refine ⟨?_, rfl, starts, named, chars⟩
            rw [whole, split]
            simp only [List.append_assoc, List.cons_append]
      · simp [blank] at rest

theorem declarationAt_parts (text : Text) (found : Declaration) (known : declarationAt? text = some found) :
    found.IsAt text := by
  rw [declarationAt_eq, headAt_modifiers] at known
  obtain ⟨head, attempt, rfl⟩ := Option.map_eq_some_iff.mp known
  obtain ⟨split, before, keyword, named, chars⟩ := headAt_parts _ head attempt
  refine ⟨?_, before, keyword, named, chars, rfl⟩
  have whole := splitModifiers_append text
  rw [split] at whole
  simpa only [Declaration.text, List.append_assoc] using whole

private theorem attemptAround_bare (lead pad other tail : Text) (last : Char) (ends : lead.getLast? = some last)
    (apart : Text.isWord last = false) (isPad : Text.IsPad pad) (isOther : Text.IsPad other)
    (stops : Text.StopsName lead pad tail) (bare : ∀ more, afterModifier? (lead ++ more) = none) :
    AttemptAround lead pad other tail := by
  have attempt (more : Text) : declarationAt? (lead ++ more) = headAt? [] (lead ++ more) :=
    declarationAt_bare _ (bare more)
  rcases headAt_cases lead last ends apart with headless | ⟨keyword, c, rest, whole, _, _, found⟩
  · exact .missing (by rw [attempt, headless]) (by rw [attempt, headless])
  · have inner : Text.StopsName rest pad tail := by
      rcases stops with apart | going
      · refine .inl fun d behind => apart d ?_
        have nonempty : rest ≠ [] := fun empty => by rw [empty] at behind; cases behind
        have further := Text.getLast_suffix (keyword ++ [c]) rest nonempty
        rw [List.append_assoc, List.singleton_append, ← whole] at further
        rw [further, behind]
      · exact .inr going
    cases Text.nameAround rest pad other tail isPad isOther inner with
    | missing before after =>
        refine .missing ?_ ?_
        · rw [attempt, found, before]
          rfl
        · rw [attempt, found, after]
          rfl
    | inside gap name behind split before after =>
        have named := (Text.lateName_append _ _ before).2.1
        refine .inside [] keyword (c :: gap) name behind ?_ named ?_ ?_
        · rw [whole, split]
          simp only [List.nil_append, List.append_assoc, List.cons_append]
        · rw [attempt, found, before]
          rfl
        · rw [attempt, found, after]
          rfl
    | beyond gap name behind split before after =>
        have named := (Text.lateName_append _ _ before).2.1
        refine .gapped [] keyword (c :: rest) gap name behind (List.cons_ne_nil c rest) named whole split ?_ ?_
        · rw [attempt, found, before]
          rfl
        · rw [attempt, found, after]
          rfl
    | across name unpadded before length =>
        refine .across _ unpadded (by rw [attempt, found, before]; rfl) ?_ ?_
        · rw [whole]
          simp only [Declaration.text, List.length_append, List.length_cons, List.length_nil]
          omega
        · rw [whole]
          simp only [List.length_append, List.length_cons, List.length_nil]
          omega

/-- A text that is one modifier with its blanks: whatever is declared behind the pad has the pad among its
modifiers. -/
theorem attemptAround_modifier (lead pad other tail : Text) (isPad : Text.IsPad pad) (isOther : Text.IsPad other)
    (found : ∀ more, afterModifier? (lead ++ more) = some (Text.trimStart more)) : AttemptAround lead pad other tail := by
  obtain ⟨spaces, split, spaced⟩ := Text.trimStart_split tail
  have attempt (padding : Text) (padded : Text.IsPad padding) :
      declarationAt? (lead ++ (padding ++ tail)) = (declarationAt? (Text.trimStart tail)).map fun found =>
        { found with modifiers := lead ++ padding ++ spaces ++ found.modifiers } := by
    have rest := found (padding ++ tail)
    have place : lead ++ (padding ++ tail) = lead ++ padding ++ spaces ++ Text.trimStart tail := by
      rw [List.append_assoc, List.append_assoc, ← split]
    rw [Text.trimStart_pad padding tail padded.blank, place] at rest
    rw [place]
    exact declarationAt_modified _ _ rest
  have before := attempt pad isPad
  have after := attempt other isOther
  cases known : declarationAt? (Text.trimStart tail) with
  | none =>
      rw [known] at before after
      exact .missing before after
  | some declaration =>
      rw [known] at before after
      obtain ⟨parts, front, _, named, _, _⟩ := declarationAt_parts _ declaration known
      obtain ⟨_, modifiers, keyword, gap, name, rest⟩ := declaration
      cases front
      refine .modified (spaces ++ modifiers) keyword gap name rest named ?_ ?_ ?_
      · rw [split, parts]
        simp only [Declaration.text, List.append_assoc]
      · rw [before]
        simp only [Option.map_some, List.append_assoc]
      · rw [after]
        simp only [Option.map_some, List.append_assoc]

/-- A modifier in front of a text changes an attempt only by that modifier. -/
theorem AttemptAround.behind {rest pad other tail : Text} (around : AttemptAround rest pad other tail) (modifier : Text)
    (attempt : ∀ more, declarationAt? (modifier ++ rest ++ more) = (declarationAt? (rest ++ more)).map fun found =>
      { found with modifiers := modifier ++ found.modifiers }) :
    AttemptAround (modifier ++ rest) pad other tail := by
  cases around with
  | missing before after =>
      refine .missing ?_ ?_
      · rw [attempt, before]
        rfl
      · rw [attempt, after]
        rfl
  | inside modifiers keyword gap name behind split named before after =>
      refine .inside (modifier ++ modifiers) keyword gap name behind ?_ named ?_ ?_
      · rw [split]
        simp only [List.append_assoc]
      · rw [attempt, before]
        rfl
      · rw [attempt, after]
        rfl
  | gapped modifiers keyword gap behind name following spaced named split further before after =>
      refine .gapped (modifier ++ modifiers) keyword gap behind name following spaced named ?_ further ?_ ?_
      · rw [split]
        simp only [List.append_assoc]
      · rw [attempt, before]
        rfl
      · rw [attempt, after]
        rfl
  | modified modifiers keyword gap name following named further before after =>
      refine .modified modifiers keyword gap name following named further ?_ ?_
      · rw [attempt, before]
        simp only [Option.map_some, List.append_assoc]
      · rw [attempt, after]
        simp only [Option.map_some, List.append_assoc]
  | across declaration unpadded before length early =>
      refine .across { declaration with modifiers := modifier ++ declaration.modifiers } unpadded
        (by rw [attempt, before]; rfl) ?_ ?_
      · simp only [Declaration.text, List.length_append] at length ⊢
        omega
      · simp only [List.length_append]
        omega

private theorem attemptAround (lead pad other tail : Text) (last : Char) (ends : lead.getLast? = some last)
    (apart : Text.isWord last = false) (isPad : Text.IsPad pad) (isOther : Text.IsPad other)
    (stops : Text.StopsName lead pad tail) : AttemptAround lead pad other tail := by
  generalize size : lead.length = count
  induction count using Nat.strongRecOn generalizing lead with
  | ind count ih =>
      cases modifierAt lead last ends apart with
      | missing bare => exact attemptAround_bare lead pad other tail last ends apart isPad isOther stops bare
      | whole blank found => exact attemptAround_modifier lead pad other tail isPad isOther found
      | inside modifier rest whole nonempty lasting found =>
          have positive := List.length_pos_iff.mpr nonempty
          have shorter : rest.length < count := by
            rw [← size, whole, List.length_append]
            omega
          have inner : Text.StopsName rest pad tail := by
            rcases stops with apart | going
            · refine .inl fun d behind => apart d ?_
              rw [ends, ← lasting, behind]
            · exact .inr going
          subst whole
          apply (ih rest.length shorter rest lasting inner rfl).behind modifier
          intro more
          have known := found more
          rw [List.append_assoc] at known ⊢
          exact declarationAt_modified modifier (rest ++ more) known

/-! ### The search -/

theorem findDeclaration_cons (wanted reversed : Text) (c : Char) (rest : Text) :
    findDeclaration? wanted reversed 0 (c :: rest) =
      match if Text.startsWord reversed.head? then declarationAt? (c :: rest) else none with
      | none => findDeclaration? wanted (c :: reversed) 0 rest
      | some declaration =>
          if Text.sameName declaration.name wanted && !isMemberAccess reversed then
            some { declaration with before := reversed.reverse }
          else findDeclaration? wanted (c :: reversed) (declaration.text.length - 1) rest := by
  with_unfolding_all rfl

theorem findDeclaration_missed (wanted reversed : Text) (c : Char) (rest : Text)
    (missing : Text.startsWord reversed.head? = true → declarationAt? (c :: rest) = none) :
    findDeclaration? wanted reversed 0 (c :: rest) = findDeclaration? wanted (c :: reversed) 0 rest := by
  rw [findDeclaration_cons]
  by_cases starts : Text.startsWord reversed.head? = true
  · rw [if_pos starts, missing starts]
  · rw [if_neg starts]

theorem findDeclaration_met (wanted reversed : Text) (c : Char) (rest : Text) (declaration : Declaration)
    (starts : Text.startsWord reversed.head? = true) (here : declarationAt? (c :: rest) = some declaration) :
    findDeclaration? wanted reversed 0 (c :: rest) =
      if Text.sameName declaration.name wanted && !isMemberAccess reversed then
        some { declaration with before := reversed.reverse }
      else findDeclaration? wanted (c :: reversed) (declaration.text.length - 1) rest := by
  rw [findDeclaration_cons, if_pos starts, here]

/-- One step of a search that finds something: nothing is declared at the place, or what is declared there is taken
or passed over. -/
inductive SearchStep (wanted reversed : Text) (c : Char) (rest : Text) (found : Declaration) : Prop where
  | missed (missing : Text.startsWord reversed.head? = true → declarationAt? (c :: rest) = none)
      (later : findDeclaration? wanted (c :: reversed) 0 rest = some found)
  | taken (declaration : Declaration) (starts : Text.startsWord reversed.head? = true)
      (here : declarationAt? (c :: rest) = some declaration)
      (chosen : (Text.sameName declaration.name wanted && !isMemberAccess reversed) = true)
      (same : found = { declaration with before := reversed.reverse })
  | passed (declaration : Declaration) (starts : Text.startsWord reversed.head? = true)
      (here : declarationAt? (c :: rest) = some declaration)
      (rejected : (Text.sameName declaration.name wanted && !isMemberAccess reversed) = false)
      (later : findDeclaration? wanted (c :: reversed) (declaration.text.length - 1) rest = some found)

theorem searchStep {wanted reversed : Text} {c : Char} {rest : Text} {found : Declaration}
    (known : findDeclaration? wanted reversed 0 (c :: rest) = some found) : SearchStep wanted reversed c rest found := by
  by_cases starts : Text.startsWord reversed.head? = true
  · cases here : declarationAt? (c :: rest) with
    | none =>
        rw [findDeclaration_missed _ _ _ _ fun _ => here] at known
        exact .missed (fun _ => here) known
    | some declaration =>
        rw [findDeclaration_met _ _ _ _ _ starts here] at known
        split at known
        · rename_i chosen
          exact .taken declaration starts here chosen (Option.some.inj known).symm
        · rename_i rejected
          exact .passed declaration starts here (Bool.eq_false_iff.mpr rejected) known
  · rw [findDeclaration_missed _ _ _ _ (absurd · starts)] at known
    exact .missed (absurd · starts) known

/-- A search takes both of two declarations of one name, or goes on behind both. -/
theorem findDeclaration_both (wanted reversed : Text) (c : Char) (text changed : Text)
    (declaration new found : Declaration) (starts : Text.startsWord reversed.head? = true)
    (before : declarationAt? (c :: text) = some declaration) (after : declarationAt? (c :: changed) = some new)
    (named : new.name = declaration.name) (known : findDeclaration? wanted reversed 0 (c :: text) = some found) :
    found = { declaration with before := reversed.reverse } ∧
        findDeclaration? wanted reversed 0 (c :: changed) = some { new with before := reversed.reverse } ∨
      findDeclaration? wanted (c :: reversed) (declaration.text.length - 1) text = some found ∧
        findDeclaration? wanted reversed 0 (c :: changed) =
          findDeclaration? wanted (c :: reversed) (new.text.length - 1) changed := by
  rw [findDeclaration_met _ _ _ _ _ starts before] at known
  rw [findDeclaration_met _ _ _ _ _ starts after, named]
  split at known
  · rename_i chosen
    rw [if_pos chosen]
    exact .inl ⟨(Option.some.inj known).symm, rfl⟩
  · rename_i passing
    rw [if_neg passing]
    exact .inr ⟨known, rfl⟩

private theorem findDeclaration_skip (wanted reversed lead rest : Text) (skip : Nat) :
    findDeclaration? wanted reversed (lead.length + skip) (lead ++ rest) =
      findDeclaration? wanted (lead.reverse ++ reversed) skip rest := by
  induction lead generalizing reversed with
  | nil => rw [List.length_nil, Nat.zero_add, List.nil_append, List.reverse_nil, List.nil_append]
  | cons c lead ih =>
      have sizes : (c :: lead).length + skip = lead.length + skip + 1 := by
        rw [List.length_cons]
        omega
      rw [sizes, List.cons_append]
      change findDeclaration? wanted (c :: reversed) (lead.length + skip) (lead ++ rest) = _
      rw [ih, List.reverse_cons, List.append_assoc]
      rfl

theorem findDeclaration_pad (wanted reversed pad rest : Text) (isPad : Text.IsPad pad) :
    findDeclaration? wanted reversed 0 (pad ++ rest) = findDeclaration? wanted (pad.reverse ++ reversed) 0 rest := by
  induction pad generalizing reversed with
  | nil => rfl
  | cons c pad ih =>
      have missing : declarationAt? (c :: (pad ++ rest)) = none := by
        have modifier : Text.keyword? modifierWords (c :: (pad ++ rest)) = none := by
          rcases isPad.head with rfl | rfl <;> rfl
        have kind : Text.keyword? kindWords (c :: (pad ++ rest)) = none := by
          rcases isPad.head with rfl | rfl <;> rfl
        rw [declarationAt_bare]
        · unfold headAt?
          rw [kind]
          rfl
        · unfold afterModifier?
          rw [modifier]
          rfl
      rw [List.cons_append, findDeclaration_missed _ _ _ _ fun _ => missing, ih _ isPad.tail, List.reverse_cons,
        List.append_assoc]
      rfl

/-- Two texts read so far that a search cannot tell apart. -/
structure Similar (left right : Text) : Prop where
  starts : Text.startsWord left.head? = Text.startsWord right.head?
  access : isMemberAccess left = isMemberAccess right

private theorem Similar.cons {left right : Text} (similar : Similar left right) (c : Char) :
    Similar (c :: left) (c :: right) := by
  refine ⟨rfl, ?_⟩
  have access := similar.access
  unfold isMemberAccess at access ⊢
  by_cases blank : Text.isBlank c = true
  · rw [List.dropWhile_cons_of_pos blank, List.dropWhile_cons_of_pos blank]
    exact access
  · rw [List.dropWhile_cons_of_neg blank, List.dropWhile_cons_of_neg blank]

/-- A found declaration lies behind what has been read. -/
theorem findDeclaration_similar (wanted left right : Text) (skip : Nat) (text : Text) (similar : Similar left right)
    (found : Declaration) (known : findDeclaration? wanted left skip text = some found) :
    ∃ passed, found.before = left.reverse ++ passed ∧ skip ≤ passed.length ∧
      text = passed ++ (found.text ++ found.after) ∧
      findDeclaration? wanted right skip text = some { found with before := right.reverse ++ passed } := by
  induction text generalizing left right skip with
  | nil => cases skip <;> cases known
  | cons c text ih =>
      have later (rest : Nat) (deeper : findDeclaration? wanted (c :: left) rest text = some found) :
          ∃ passed, found.before = left.reverse ++ c :: passed ∧ rest ≤ passed.length ∧
            text = passed ++ (found.text ++ found.after) ∧
            findDeclaration? wanted (c :: right) rest text =
              some { found with before := right.reverse ++ c :: passed } := by
        obtain ⟨passed, before, bound, whole, other⟩ := ih (c :: left) (c :: right) rest (similar.cons c) deeper
        rw [List.reverse_cons, List.append_assoc] at before other
        exact ⟨passed, before, bound, whole, other⟩
      cases skip with
      | succ skip =>
          obtain ⟨passed, before, bound, whole, other⟩ := later skip known
          exact ⟨c :: passed, before, by rw [List.length_cons]; omega, by rw [whole]; rfl, other⟩
      | zero =>
          cases searchStep known with
          | missed missing deeper =>
              obtain ⟨passed, before, _, whole, other⟩ := later 0 deeper
              refine ⟨c :: passed, before, Nat.zero_le _, by rw [whole]; rfl, ?_⟩
              rw [findDeclaration_missed _ _ _ _ (by rw [← similar.starts]; exact missing), other]
          | taken declaration starts here chosen same =>
              subst same
              refine ⟨[], by rw [List.append_nil], Nat.le_refl 0, (declarationAt_parts _ _ here).whole, ?_⟩
              rw [similar.starts] at starts
              rw [similar.access] at chosen
              rw [findDeclaration_met _ _ _ _ _ starts here, if_pos chosen, List.append_nil]
          | passed declaration starts here rejected deeper =>
              obtain ⟨passed, before, _, whole, other⟩ := later _ deeper
              refine ⟨c :: passed, before, Nat.zero_le _, by rw [whole]; rfl, ?_⟩
              rw [similar.starts] at starts
              rw [similar.access] at rejected
              rw [findDeclaration_met _ _ _ _ _ starts here, if_neg (Bool.eq_false_iff.mp rejected), other]

/-- A declaration before, around or behind a pad, after the pad is exchanged. -/
inductive Shifted (lead pad other tail : Text) (found new : Declaration) : Prop where
  | inside (rest : Text) (whole : lead = found.before ++ found.text ++ rest) (named : found.name ≠ [])
      (after : found.after = rest ++ (pad ++ tail)) (same : new = { found with after := rest ++ (other ++ tail) })
  | gapped (gap following : Text) (whole : lead = found.lead ++ found.keyword ++ gap) (spaced : gap ≠ [])
      (same : new = { found with gap := gap ++ other ++ following })
  | around (start modifiers : Text) (whole : lead = found.before ++ start)
      (padded : found.modifiers = start ++ pad ++ modifiers)
      (same : new = { found with modifiers := start ++ other ++ modifiers })
  | behind (passed : Text) (before : found.before = lead ++ pad ++ passed)
      (following : tail = passed ++ (found.text ++ found.after))
      (same : new = { found with before := lead ++ other ++ passed })

theorem findDeclaration_behind (wanted left text pad other front : Text) (skip : Nat)
    (similar : Similar (pad.reverse ++ left) (other.reverse ++ left)) (found : Declaration)
    (known : findDeclaration? wanted (pad.reverse ++ left) skip text = some found) (read : left.reverse = front) :
    ∃ new, findDeclaration? wanted (other.reverse ++ left) skip text = some new ∧
      Shifted front pad other text found new := by
  obtain ⟨passed, before, _, following, other⟩ := findDeclaration_similar wanted _ _ skip text similar found known
  rw [List.reverse_append, List.reverse_reverse, read] at before other
  exact ⟨_, other, .behind passed before following rfl⟩

/-- A declaration that reaches beyond a pad is taken with either pad in it, or passed over together with the pad. -/
theorem findDeclaration_over (wanted reversed : Text) (c : Char) (lead pad other tail : Text) (further : Nat)
    (declaration new found : Declaration) (starts : Text.startsWord reversed.head? = true)
    (before : declarationAt? (c :: (lead ++ (pad ++ tail))) = some declaration)
    (after : declarationAt? (c :: (lead ++ (other ++ tail))) = some new) (named : new.name = declaration.name)
    (reach : declaration.text.length = (c :: lead).length + (pad.length + further))
    (newReach : new.text.length = (c :: lead).length + (other.length + further))
    (similar : Similar (pad.reverse ++ (lead.reverse ++ (c :: reversed))) (other.reverse ++ (lead.reverse ++ (c :: reversed))))
    (taken : Shifted ((c :: reversed).reverse ++ lead) pad other tail { declaration with before := reversed.reverse }
      { new with before := reversed.reverse })
    (known : findDeclaration? wanted reversed 0 (c :: (lead ++ (pad ++ tail))) = some found) :
    ∃ new, findDeclaration? wanted reversed 0 (c :: (lead ++ (other ++ tail))) = some new ∧
      Shifted ((c :: reversed).reverse ++ lead) pad other tail found new := by
  rcases findDeclaration_both wanted reversed c (lead ++ (pad ++ tail)) (lead ++ (other ++ tail)) _ _ found
    starts before after named known with ⟨rfl, search⟩ | ⟨deeper, search⟩
  · exact ⟨_, search, taken⟩
  · have skip : declaration.text.length - 1 = lead.length + (pad.length + further) := by
      rw [reach, List.length_cons]
      omega
    have newSkip : new.text.length - 1 = lead.length + (other.length + further) := by
      rw [newReach, List.length_cons]
      omega
    rw [skip, findDeclaration_skip, findDeclaration_skip] at deeper
    rw [search, newSkip, findDeclaration_skip, findDeclaration_skip]
    apply findDeclaration_behind wanted _ tail pad other _ further similar found deeper
    rw [List.reverse_append, List.reverse_reverse]

theorem findDeclaration_reach (wanted reversed : Text) (c : Char) (rest : Text) (declaration found : Declaration)
    (starts : Text.startsWord reversed.head? = true) (here : declarationAt? (c :: rest) = some declaration)
    (known : findDeclaration? wanted reversed 0 (c :: rest) = some found) :
    found = { declaration with before := reversed.reverse } ∨
      findDeclaration? wanted (c :: reversed) (declaration.text.length - 1) rest = some found ∧
        reversed.length + declaration.text.length ≤ found.before.length := by
  rw [findDeclaration_met _ _ _ _ _ starts here] at known
  split at known
  · exact .inl (Option.some.inj known).symm
  · obtain ⟨passed, place, far, _⟩ := findDeclaration_similar wanted _ _ _ _ ⟨rfl, rfl⟩ found known
    have reach := congrArg List.length place
    simp only [List.length_append, List.length_reverse, List.length_cons] at reach
    exact .inr ⟨known, by omega⟩

/-- From some place on, a search that finds a declaration finds it again behind another pad, as long as a search for
an anchor comes to the class behind the pad. -/
def Transfers (wanted anchor front pad other tail : Text) (mark found : Declaration) (reversed : Text) (skip : Nat)
    (lead : Text) : Prop :=
  findDeclaration? anchor reversed skip (lead ++ (pad ++ tail)) = some mark →
    findDeclaration? wanted reversed skip (lead ++ (pad ++ tail)) = some found →
      ∃ new, findDeclaration? wanted reversed skip (lead ++ (other ++ tail)) = some new ∧
        Shifted front pad other tail found new

section Transfers

variable {wanted anchor front pad other tail : Text} {mark found : Declaration}

private theorem transfers_missed (reversed : Text) (c : Char) (lead : Text)
    (before : Text.startsWord reversed.head? = true → declarationAt? (c :: (lead ++ (pad ++ tail))) = none)
    (after : Text.startsWord reversed.head? = true → declarationAt? (c :: (lead ++ (other ++ tail))) = none)
    (later : Transfers wanted anchor front pad other tail mark found (c :: reversed) 0 lead) :
    Transfers wanted anchor front pad other tail mark found reversed 0 (c :: lead) := by
  intro marked known
  rw [List.cons_append, findDeclaration_missed _ _ _ _ before] at marked known
  rw [List.cons_append, findDeclaration_missed _ _ _ _ after]
  exact later marked known

/-- A declaration that ends before the pad is not the class behind it, so the search for the class passes it too. -/
theorem transfers_inside (reversed : Text) (c : Char) (lead modifiers keyword gap name rest : Text)
    (read : front = reversed.reverse ++ c :: lead) (far : front.length ≤ mark.lead.length)
    (starts : Text.startsWord reversed.head? = true)
    (whole : c :: lead = modifiers ++ keyword ++ gap ++ name ++ rest) (named : name ≠ [])
    (before : declarationAt? (c :: (lead ++ (pad ++ tail))) =
      some ⟨[], modifiers, keyword, gap, name, rest ++ (pad ++ tail)⟩)
    (after : declarationAt? (c :: (lead ++ (other ++ tail))) =
      some ⟨[], modifiers, keyword, gap, name, rest ++ (other ++ tail)⟩)
    (later : ∀ skip ≤ lead.length,
      Transfers wanted anchor front pad other tail mark found (c :: reversed) skip lead) :
    Transfers wanted anchor front pad other tail mark found reversed 0 (c :: lead) := by
  intro marked known
  have positive := List.length_pos_iff.mpr named
  have sizes := congrArg List.length whole
  simp only [List.length_append, List.length_cons] at sizes
  rw [read, List.length_append, List.length_reverse, List.length_cons] at far
  rw [List.cons_append] at marked known ⊢
  rcases findDeclaration_both wanted reversed c (lead ++ (pad ++ tail)) (lead ++ (other ++ tail)) _ _ found starts before
    after rfl known with ⟨rfl, search⟩ | ⟨deeper, search⟩
  · refine ⟨_, search, .inside rest ?_ named rfl rfl⟩
    rw [read, whole]
    simp only [Declaration.text, List.append_assoc]
  · rw [search]
    rcases findDeclaration_reach _ _ _ _ _ mark starts before marked with rfl | ⟨deeperMark, _⟩
    · simp only [Declaration.lead, List.length_append, List.length_reverse] at far
      omega
    · refine later _ ?_ deeperMark deeper
      simp only [Declaration.text, List.length_append]
      omega

end Transfers

/-- The search finds the same declaration when a pad before a class is exchanged. That no name runs across the
place is known from the class, which would be passed over otherwise. -/
theorem findDeclaration_beside (wanted anchor reversed lead pad other tail behind : Text) (skip : Nat)
    (isPad : Text.IsPad pad) (isOther : Text.IsPad other)
    (apart : ∀ last, lead.getLast? = some last → Text.isWord last = false) (stops : Text.StopsName lead pad tail)
    (thin : pad = [] → behind = []) (bound : skip ≤ lead.length)
    (similar : Similar (pad.reverse ++ (lead.reverse ++ reversed)) (other.reverse ++ (lead.reverse ++ reversed)))
    (mark : Declaration) (marked : findDeclaration? anchor reversed skip (lead ++ (pad ++ tail)) = some mark)
    (place : mark.lead = reversed.reverse ++ lead ++ pad ++ behind)
    (found : Declaration) (known : findDeclaration? wanted reversed skip (lead ++ (pad ++ tail)) = some found) :
    ∃ new, findDeclaration? wanted reversed skip (lead ++ (other ++ tail)) = some new ∧
      Shifted (reversed.reverse ++ lead) pad other tail found new := by
  suffices transfers : Transfers wanted anchor (reversed.reverse ++ lead) pad other tail mark found reversed skip lead from
    transfers marked known
  clear marked known
  induction lead generalizing reversed skip with
  | nil =>
      intro _ known
      have zero : skip = 0 := Nat.le_zero.mp bound
      subst zero
      rw [List.nil_append, findDeclaration_pad wanted reversed _ tail isPad] at known
      rw [List.nil_append, findDeclaration_pad wanted reversed _ tail isOther, List.append_nil]
      exact findDeclaration_behind wanted reversed tail pad other _ 0 similar found known rfl
  | cons c lead ih =>
      have turned : (c :: lead).reverse ++ reversed = lead.reverse ++ (c :: reversed) := by
        rw [List.reverse_cons, List.append_assoc]
        rfl
      have read : reversed.reverse ++ c :: lead = (c :: reversed).reverse ++ lead := by
        rw [List.reverse_cons, List.append_assoc]
        rfl
      have size := congrArg List.length place
      simp only [List.length_append] at size
      rw [turned] at similar
      rw [read] at place
      have later (rest : Nat) (short : rest ≤ lead.length) : Transfers wanted anchor (reversed.reverse ++ c :: lead) pad
          other tail mark found (c :: reversed) rest lead := by
        rw [read]
        refine ih (c :: reversed) rest (fun last ends => apart last ?_) stops.tail short similar place
        cases lead with
        | nil => cases ends
        | cons d lead => exact ends
      cases skip with
      | succ skip => exact later skip (Nat.le_of_succ_le_succ bound)
      | zero =>
          by_cases starts : Text.startsWord reversed.head? = true
          · obtain ⟨last, ends⟩ : ∃ last, (c :: lead).getLast? = some last :=
              ⟨_, List.getLast?_eq_some_getLast (List.cons_ne_nil c lead)⟩
            cases attemptAround (c :: lead) pad other tail last ends (apart last ends) isPad isOther stops with
            | missing before after =>
                exact transfers_missed reversed c lead (fun _ => before) (fun _ => after) (later 0 (Nat.zero_le _))
            | inside modifiers keyword gap name rest whole named before after =>
                refine transfers_inside reversed c lead modifiers keyword gap name rest rfl ?_ starts whole named before
                  after later
                rw [List.length_append]
                omega
            | gapped modifiers keyword gap following name rest spaced named whole further before after =>
                intro _ known
                have sizes := congrArg List.length whole
                simp only [List.length_append, List.length_cons] at sizes
                have count (padding : Text) : (Declaration.mk [] modifiers keyword (gap ++ padding ++ following)
                    name rest).text.length = (c :: lead).length + (padding.length + (following.length + name.length)) := by
                  simp only [Declaration.text, List.length_append, List.length_cons]
                  omega
                rw [read]
                apply findDeclaration_over wanted reversed c lead pad other tail _ _ _ found starts before after rfl
                  (count pad) (count other) similar (.gapped gap following ?_ spaced rfl) known
                rw [← read, whole]
                simp only [Declaration.lead, List.append_assoc]
            | modified modifiers keyword gap name rest named further before after =>
                intro _ known
                have count (padding : Text) :
                    (Declaration.mk [] (c :: lead ++ padding ++ modifiers) keyword gap name rest).text.length =
                      (c :: lead).length + (padding.length +
                        (modifiers.length + keyword.length + gap.length + name.length)) := by
                  simp only [Declaration.text, List.length_append]
                  omega
                rw [read]
                exact findDeclaration_over wanted reversed c lead pad other tail _ _ _ found starts before after rfl
                  (count pad) (count other) similar (.around (c :: lead) modifiers read.symm rfl rfl) known
            | across declaration unpadded before length early =>
                intro marked _
                rw [thin unpadded, unpadded] at size
                simp only [Declaration.lead, List.length_append, List.length_reverse, List.length_cons, List.length_nil]
                  at early length size
                rcases findDeclaration_reach _ _ _ _ _ mark starts before marked with rfl | ⟨_, reach⟩
                · simp only [List.length_reverse] at size
                  omega
                · omega
          · exact transfers_missed reversed c lead (absurd · starts) (absurd · starts) (later 0 (Nat.zero_le _))

/-- A declaration behind a pad, or with the pad among its modifiers, after the pad is exchanged. -/
inductive Moved (lead pad other behind : Text) (found new : Declaration) : Prop where
  | behind (passed : Text) (whole : behind = passed ++ found.modifiers)
      (before : found.before = lead ++ pad ++ passed) (same : new = { found with before := lead ++ other ++ passed })
  | around (front start : Text) (whole : lead = front ++ start) (before : found.before = front)
      (modifiers : found.modifiers = start ++ pad ++ behind)
      (same : new = { found with modifiers := start ++ other ++ behind })

theorem Moved.new_lead {lead pad other behind : Text} {found new : Declaration}
    (moved : Moved lead pad other behind found new) : new.lead = lead ++ other ++ behind := by
  cases moved with
  | behind passed whole before same =>
      rw [same, Declaration.lead, whole]
      simp only [List.append_assoc]
  | around front start whole before modifiers same =>
      rw [same, Declaration.lead, before, whole]
      simp only [List.append_assoc]

private theorem Shifted.moved {lead pad other tail behind : Text} {found new : Declaration}
    (shifted : Shifted lead pad other tail found new) (place : found.lead = lead ++ pad ++ behind) :
    Moved lead pad other behind found new := by
  have size := congrArg List.length place
  simp only [Declaration.lead, List.length_append] at size
  cases shifted with
  | inside rest whole named after same =>
      have positive := List.length_pos_iff.mpr named
      have sizes := congrArg List.length whole
      simp only [Declaration.text, List.length_append] at sizes
      omega
  | gapped gap following whole spaced same =>
      have positive := List.length_pos_iff.mpr spaced
      have sizes := congrArg List.length whole
      simp only [Declaration.lead, List.length_append] at sizes
      omega
  | around start modifiers whole padded same =>
      rw [Declaration.lead, whole, padded] at place
      simp only [List.append_assoc] at place
      have rest := List.append_cancel_left (List.append_cancel_left (List.append_cancel_left place))
      subst rest
      exact .around found.before start whole rfl padded same
  | behind passed before following same =>
      rw [Declaration.lead, before, List.append_assoc] at place
      exact .behind passed (List.append_cancel_left place).symm before same

theorem findDeclaration_around (wanted lead pad other tail behind : Text)
    (isPad : Text.IsPad pad) (isOther : Text.IsPad other)
    (apart : ∀ last, lead.getLast? = some last → Text.isWord last = false) (stops : Text.StopsName lead pad tail)
    (thin : pad = [] → behind = [])
    (similar : Similar (pad.reverse ++ lead.reverse) (other.reverse ++ lead.reverse))
    (found : Declaration) (known : findDeclaration? wanted [] 0 (lead ++ (pad ++ tail)) = some found)
    (place : found.lead = lead ++ pad ++ behind) :
    ∃ new, findDeclaration? wanted [] 0 (lead ++ (other ++ tail)) = some new ∧ Moved lead pad other behind found new := by
  obtain ⟨new, search, shifted⟩ := findDeclaration_beside wanted wanted [] lead pad other tail behind 0 isPad isOther
    apart stops thin (Nat.zero_le _) (by rw [List.append_nil]; exact similar) found known place found known
  exact ⟨new, search, shifted.moved place⟩

/-! ### What is found -/

theorem getLast_splitModifiers (text : Text) (modified : (splitModifiers text).1 ≠ []) :
    ∃ last, (splitModifiers text).1.getLast? = some last ∧ Text.isBlank last = true := by
  generalize size : text.length = count
  induction count using Nat.strongRecOn generalizing text with
  | ind count ih =>
      cases found : afterModifier? text with
      | none =>
          rw [splitModifiers, found] at modified
          exact absurd rfl modified
      | some rest =>
          obtain ⟨modifier, whole, nonempty, last, ends, blank⟩ := afterModifier_append text rest found
          subst whole
          rw [splitModifiers_step modifier rest found]
          by_cases more : (splitModifiers rest).1 = []
          · exact ⟨last, by rw [more, List.append_nil, ends], blank⟩
          · have positive := List.length_pos_iff.mpr nonempty
            rw [List.length_append] at size
            obtain ⟨inner, lasting, spaced⟩ := ih rest.length (by omega) rest more rfl
            exact ⟨inner, by rw [Text.getLast_suffix _ _ more, lasting], spaced⟩

theorem findDeclaration_spec (wanted reversed : Text) (skip : Nat) (text : Text) (found : Declaration)
    (known : findDeclaration? wanted reversed skip text = some found) :
    (Text.startsWord found.before.getLast? = true ∧ isMemberAccess found.before.reverse = false) ∧
      Text.sameName found.name wanted = true ∧ ∃ rest, declarationAt? rest = some { found with before := [] } := by
  induction text generalizing reversed skip with
  | nil => cases skip <;> cases known
  | cons c text ih =>
      cases skip with
      | succ skip => exact ih (c :: reversed) skip known
      | zero =>
          cases searchStep known with
          | missed _ later => exact ih _ _ later
          | passed _ _ _ _ later => exact ih _ _ later
          | taken declaration starts here chosen same =>
              subst same
              rw [Bool.and_eq_true, Bool.not_eq_true'] at chosen
              have front := (declarationAt_parts _ _ here).before
              refine ⟨⟨?_, ?_⟩, chosen.1, c :: text, by rw [here, ← front]⟩
              · rw [List.getLast?_reverse]
                exact starts
              · rw [List.reverse_reverse]
                exact chosen.2

/-- No word and no name with namespace runs into the keyword of a found declaration. -/
theorem findDeclaration_apart (wanted reversed : Text) (skip : Nat) (text : Text) (found : Declaration)
    (known : findDeclaration? wanted reversed skip text = some found) (last : Char)
    (ends : found.lead.getLast? = some last) : Text.isWord last = false ∧ last ≠ '\\' := by
  obtain ⟨⟨starts, free⟩, _, rest, attempt⟩ := findDeclaration_spec wanted reversed skip text found known
  by_cases bare : found.modifiers = []
  · rw [Declaration.lead, bare, List.append_nil] at ends
    rw [ends] at starts
    refine ⟨by simpa [Text.startsWord] using starts, ?_⟩
    rintro rfl
    obtain ⟨front, whole⟩ := List.getLast?_eq_some_iff.mp ends
    rw [whole, List.reverse_append] at free
    cases free
  · have modifiers := (declarationAt_parts _ _ attempt).modifiers
    change found.modifiers = _ at modifiers
    rw [modifiers] at bare
    obtain ⟨blank, lasting, spaced⟩ := getLast_splitModifiers rest bare
    rw [Declaration.lead, Text.getLast_suffix _ _ (by rw [modifiers]; exact bare), modifiers, lasting] at ends
    cases ends
    refine ⟨Text.not_isWord_of_isBlank last spaced, ?_⟩
    rintro rfl
    cases spaced

/-! ### Behind the opening brace -/

private theorem headAt_extend (text more : Text) (last : Char) (ends : text.getLast? = some last)
    (barrier : Text.isBarrier last = true) :
    headAt? [] (text ++ more) = (headAt? [] text).map fun found => { found with after := found.after ++ more } := by
  obtain ⟨apart, solid, unnamed, _⟩ := Text.not_taken_of_isBarrier last barrier
  rcases headAt_cases text last ends apart with headless | ⟨keyword, c, rest, _, blank, lasting, found⟩
  · have alone := headless []
    rw [List.append_nil] at alone
    rw [headless, alone]
    rfl
  · have alone := found []
    rw [List.append_nil, List.append_nil] at alone
    rw [found, alone]
    cases rest with
    | nil =>
        have same : c = last := Option.some.inj lasting
        rw [same, solid] at blank
        cases blank
    | cons d rest =>
        rw [Text.lateName_extend (d :: rest) more last lasting solid unnamed]
        cases Text.lateName? (d :: rest) <;> rfl

private theorem declarationAt_extend (text more : Text) (last : Char) (ends : text.getLast? = some last)
    (barrier : Text.isBarrier last = true) :
    declarationAt? (text ++ more) =
      (declarationAt? text).map fun found => { found with after := found.after ++ more } := by
  obtain ⟨apart, solid, _⟩ := Text.not_taken_of_isBarrier last barrier
  generalize size : text.length = count
  induction count using Nat.strongRecOn generalizing text with
  | ind count ih =>
      cases modifierAt text last ends apart with
      | missing bare =>
          have alone := bare []
          rw [List.append_nil] at alone
          rw [declarationAt_bare _ (bare more), declarationAt_bare _ alone, headAt_extend text more last ends barrier]
      | whole blank =>
          rw [solid] at blank
          cases blank
      | inside modifier rest whole nonempty lasting found =>
          have positive := List.length_pos_iff.mpr nonempty
          rw [whole, List.length_append] at size
          have alone := found []
          have longer := found more
          rw [List.append_nil, List.append_nil, whole] at alone
          rw [whole, List.append_assoc] at longer
          rw [whole, List.append_assoc, declarationAt_modified _ _ longer, declarationAt_modified _ _ alone,
            ih rest.length (by omega) rest lasting rfl]
          cases declarationAt? rest <;> rfl

/-- A search through a text that ends with a barrier goes on behind it. -/
theorem findDeclaration_extend (wanted reversed : Text) (skip : Nat) (text more : Text)
    (barrier : ∀ last, text.getLast? = some last → Text.isBarrier last = true) (bound : skip ≤ text.length) :
    findDeclaration? wanted reversed skip (text ++ more) =
      match findDeclaration? wanted reversed skip text with
      | some found => some { found with after := found.after ++ more }
      | none => findDeclaration? wanted (text.reverse ++ reversed) 0 more := by
  induction text generalizing reversed skip with
  | nil =>
      have zero : skip = 0 := Nat.le_zero.mp bound
      subst zero
      rfl
  | cons c text ih =>
      have turned : (c :: text).reverse ++ reversed = text.reverse ++ (c :: reversed) := by
        rw [List.reverse_cons, List.append_assoc]
        rfl
      have inner : ∀ last, text.getLast? = some last → Text.isBarrier last = true := by
        intro last ends
        apply barrier
        cases text with
        | nil => cases ends
        | cons d text => exact ends
      rw [turned]
      cases skip with
      | succ skip => exact ih (c :: reversed) skip inner (Nat.le_of_succ_le_succ bound)
      | zero =>
          obtain ⟨last, ends⟩ : ∃ last, (c :: text).getLast? = some last :=
            ⟨_, List.getLast?_eq_some_getLast (List.cons_ne_nil c text)⟩
          have attempt := declarationAt_extend (c :: text) more last ends (barrier last ends)
          rw [List.cons_append] at attempt
          rw [List.cons_append, findDeclaration_cons, findDeclaration_cons, attempt]
          by_cases starts : Text.startsWord reversed.head? = true
          · rw [if_pos starts, if_pos starts]
            cases here : declarationAt? (c :: text) with
            | none => exact ih (c :: reversed) 0 inner (Nat.zero_le _)
            | some declaration =>
                dsimp only [Option.map_some]
                by_cases chosen : (Text.sameName declaration.name wanted && !isMemberAccess reversed) = true
                · rw [if_pos chosen, if_pos chosen]
                · rw [if_neg chosen, if_neg chosen]
                  apply ih (c :: reversed) _ inner
                  have size := congrArg List.length (declarationAt_parts _ _ here).whole
                  simp only [List.length_cons, List.length_append] at size
                  change declaration.text.length - 1 ≤ text.length
                  omega
          · rw [if_neg starts, if_neg starts]
            exact ih (c :: reversed) 0 inner (Nat.zero_le _)

/-- What stands behind a barrier that follows a declaration does not matter to its search. -/
theorem findDeclaration_exchange (wanted text more other : Text)
    (barrier : ∀ last, text.getLast? = some last → Text.isBarrier last = true) (found : Declaration)
    (known : findDeclaration? wanted [] 0 (text ++ more) = some found) (early : found.before.length < text.length) :
    ∃ rest, found.after = rest ++ more ∧
      findDeclaration? wanted [] 0 (text ++ other) = some { found with after := rest ++ other } := by
  have equation (behind : Text) :=
    findDeclaration_extend wanted [] 0 text behind barrier (Nat.zero_le _)
  rw [equation] at known ⊢
  cases inside : findDeclaration? wanted [] 0 text with
  | none =>
      rw [inside] at known
      obtain ⟨passed, place, _⟩ := findDeclaration_similar wanted _ _ 0 more ⟨rfl, rfl⟩ found known
      have reach := congrArg List.length place
      simp only [List.append_nil, List.length_append, List.length_reverse] at reach
      omega
  | some declaration =>
      rw [inside] at known
      cases known
      exact ⟨declaration.after, rfl, rfl⟩

end MemberDoc.Source
