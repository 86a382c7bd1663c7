import MemberDoc.Proofs.EditedSource

set_option autoImplicit false

/-! The edit of a document as three steps that can be taken back: a block is exchanged or put in, then the missing
properties, then the missing methods. Each step searches the text that the one before has left, so a later piece may
stand inside an earlier one; taken back in reverse order they give the document as it was. -/

namespace MemberDoc

structure Patch where
  offset : Nat
  removed : Text
  added : Text

namespace Patch

def Fits (patch : Patch) (text : Text) : Prop :=
  ∃ lead tail, text = lead ++ (patch.removed ++ tail) ∧ lead.length = patch.offset

def apply (patch : Patch) (text : Text) : Text :=
  text.take patch.offset ++ (patch.added ++ text.drop (patch.offset + patch.removed.length))

def inverse (patch : Patch) : Patch :=
  ⟨patch.offset, patch.added, patch.removed⟩

structure Turns (patch : Patch) (before after : Text) : Prop where
  fits : patch.Fits before
  result : patch.apply before = after

theorem apply_at (patch : Patch) (lead tail : Text) (here : lead.length = patch.offset) :
    patch.apply (lead ++ (patch.removed ++ tail)) = lead ++ (patch.added ++ tail) := by
  have rest : (lead ++ (patch.removed ++ tail)).drop (patch.offset + patch.removed.length) = tail := by
    rw [← here, ← List.length_append, ← List.append_assoc]
    exact List.drop_left
  unfold apply
  rw [rest, ← here, List.take_left]

theorem turns_of_cut {before after : Text} (lead removed added tail : Text) (cut : before = lead ++ (removed ++ tail))
    (result : after = lead ++ (added ++ tail)) : Turns ⟨lead.length, removed, added⟩ before after where
  fits := ⟨lead, tail, cut, rfl⟩
  result := by rw [cut, result, apply_at ⟨lead.length, removed, added⟩ lead tail rfl]

theorem turns_same (text : Text) : Turns ⟨0, [], []⟩ text text :=
  turns_of_cut [] [] [] text rfl rfl

private theorem Turns.undone {patch : Patch} {before after : Text} (turns : patch.Turns before after) :
    patch.inverse.apply after = before := by
  obtain ⟨⟨lead, tail, rfl, here⟩, rfl⟩ := turns
  rw [apply_at patch lead tail here]
  exact apply_at patch.inverse lead tail here

end Patch

theorem Text.append_ahead (lead tail other rest : Text) (same : lead ++ tail = other ++ rest)
    (early : lead.length ≤ other.length) : ∃ gap, other = lead ++ gap ∧ tail = gap ++ rest := by
  obtain ⟨gap, rfl⟩ := List.prefix_of_prefix_length_le ⟨tail, same⟩ ⟨rest, rfl⟩ early
  rw [List.append_assoc] at same
  exact ⟨gap, rfl, List.append_cancel_left same⟩

end MemberDoc

namespace MemberDoc.Insertion

/-- A text from an opening tag to the brace of a class: the keyword in any case, one blank and a name stand between
them. -/
def OpensBody (text : Text) : Prop :=
  ∃ front middle keyword blank c rest,
    text = front ++ ('<' :: '?' :: (middle ++ (keyword ++ blank :: c :: (rest ++ ['\x7b'])))) ∧
      keyword.map Text.foldCase = "class".toList ∧ Text.isBlank blank = true ∧ isPlainNameChar c = true

/-- The first brace that opens the body of a class stands before this offset. -/
def StartsBody (text : Text) (offset : Nat) : Prop :=
  OpensBody (text.take offset) ∧ ∀ earlier, earlier < offset → ¬ OpensBody (text.take earlier)

theorem isClassHead_iff (text : Text) :
    isClassHead text = true ↔
      ∃ keyword blank c rest, text = keyword ++ blank :: c :: rest ∧ keyword.map Text.foldCase = "class".toList ∧
        Text.isBlank blank = true ∧ isPlainNameChar c = true := by
  constructor
  · intro isHead
    unfold isClassHead at isHead
    split at isHead
    · rename_i blank c rest found
      obtain ⟨isBlank, isName⟩ := Bool.and_eq_true_iff.mp isHead
      obtain ⟨keyword, whole, folded⟩ := (Text.afterKeyword_eq_some_iff _ _ _).mp found
      exact ⟨keyword, blank, c, rest, whole, folded, isBlank, isName⟩
    · cases isHead
  · rintro ⟨keyword, blank, c, rest, rfl, folded, isBlank, isName⟩
    have found := (Text.afterKeyword_eq_some_iff "class".toList _ (blank :: c :: rest)).mpr ⟨keyword, rfl, folded⟩
    unfold isClassHead
    rw [found]
    exact Bool.and_eq_true_iff.mpr ⟨isBlank, isName⟩

theorem splitClassHead_first (text lead tail : Text) (found : splitClassHead? text = some (lead, tail)) :
    isClassHead tail = true ∧
      ∀ before behind, text = before ++ behind → isClassHead behind = true → lead.length ≤ before.length := by
  induction text generalizing lead with
  | nil => cases found
  | cons d text ih =>
      rw [splitClassHead?] at found
      split at found
      · rename_i here
        cases found
        exact ⟨here, fun before behind _ _ => Nat.zero_le _⟩
      · rename_i notHere
        obtain ⟨⟨front, rest⟩, known, same⟩ := Option.map_eq_some_iff.mp found
        cases same
        obtain ⟨isHead, first⟩ := ih front known
        refine ⟨isHead, fun before behind whole other => ?_⟩
        cases before with
        | nil =>
            rw [whole] at notHere
            exact absurd other notHere
        | cons e before =>
            rw [List.length_cons, List.length_cons]
            exact Nat.succ_le_succ (first before behind (List.cons.inj whole).2 other)

theorem splitClassHead_isSome (before behind : Text) (isHead : isClassHead behind = true) :
    ∃ parts, splitClassHead? (before ++ behind) = some parts := by
  induction before with
  | nil =>
      cases behind with
      | nil => cases isHead
      | cons c rest => exact ⟨_, if_pos isHead⟩
  | cons c before ih =>
      obtain ⟨parts, known⟩ := ih
      rw [List.cons_append, splitClassHead?]
      split
      · exact ⟨_, rfl⟩
      · rw [known]
        exact ⟨_, rfl⟩

private theorem brace_not_mem_head (keyword : Text) (blank c : Char)
    (folded : keyword.map Text.foldCase = "class".toList) (isBlank : Text.isBlank blank = true)
    (isName : isPlainNameChar c = true) : '\x7b' ∉ keyword ++ [blank, c] := by
  intro inside
  rcases List.mem_append.mp inside with early | late
  · have letter : Text.foldCase '\x7b' ∈ "class".toList := by
      rw [← folded]
      exact List.mem_map_of_mem early
    revert letter
    decide
  · rcases List.mem_cons.mp late with rfl | last
    · revert isBlank
      decide
    · rw [← List.mem_singleton.mp last] at isName
      revert isName
      decide

private theorem opensBody_of_split (text lead tail : Text) (found : splitBodyOpen? text = some (lead, tail)) :
    OpensBody lead := by
  unfold splitBodyOpen? at found
  obtain ⟨⟨front, rest⟩, tag, found⟩ := Option.bind_eq_some_iff.mp found
  obtain ⟨⟨middle, rest⟩, head, found⟩ := Option.bind_eq_some_iff.mp found
  obtain ⟨⟨opening, rest⟩, brace, found⟩ := Option.bind_eq_some_iff.mp found
  cases found
  obtain ⟨keyword, blank, c, more, place, folded, isBlank, isName⟩ :=
    (isClassHead_iff _).mp (splitClassHead_first _ _ _ head).1
  have whole := Text.splitFirst_append _ _ _ _ brace
  have same : (keyword ++ [blank, c]) ++ more = opening ++ '\x7b' :: tail := by
    rw [place] at whole
    simpa only [List.append_assoc, List.cons_append, List.nil_append] using whole
  have noBrace := brace_not_mem_head keyword blank c folded isBlank isName
  -- The head has no brace, so it ends before the first one.
  have early : (keyword ++ [blank, c]).length ≤ opening.length := by
    apply Nat.le_of_not_lt
    intro late
    obtain ⟨gap, longer, further⟩ := Text.append_ahead _ _ _ _ same.symm (Nat.le_of_lt late)
    cases gap with
    | nil =>
        rw [longer, List.append_nil] at late
        exact Nat.lt_irrefl _ late
    | cons d gap =>
        rw [longer, (List.cons.inj further).1] at noBrace
        exact noBrace (List.mem_append_right _ List.mem_cons_self)
  obtain ⟨gap, rfl, _⟩ := Text.append_ahead _ _ _ _ same early
  refine ⟨front, middle, keyword, blank, c, gap, ?_, folded, isBlank, isName⟩
  simp only [List.append_assoc, List.cons_append, List.nil_append]

/-- Where a part of a text opens a body, a brace is found within that part: each of the three searches ends no
later than the part says. -/
theorem exists_split_of_opensBody (part rest : Text) (opens : OpensBody part) :
    ∃ lead tail, splitBodyOpen? (part ++ rest) = some (lead, tail) ∧ lead.length ≤ part.length := by
  obtain ⟨front, middle, keyword, blank, c, more, rfl, folded, isBlank, isName⟩ := opens
  have isHead : isClassHead ((keyword ++ blank :: c :: more) ++ '\x7b' :: rest) = true :=
    (isClassHead_iff _).mpr ⟨keyword, blank, c, more ++ '\x7b' :: rest, by
      simp only [List.append_assoc, List.cons_append], folded, isBlank, isName⟩
  have whole : front ++ ('<' :: '?' :: (middle ++ (keyword ++ blank :: c :: (more ++ ['\x7b'])))) ++ rest =
      front ++ ['<', '?'] ++ (middle ++ ((keyword ++ blank :: c :: more) ++ '\x7b' :: rest)) := by
    simp only [List.append_assoc, List.cons_append, List.nil_append]
  rw [whole]
  obtain ⟨⟨lead, tail⟩, tag⟩ := Text.splitFirst_isSome ['<', '?'] front
    (middle ++ ((keyword ++ blank :: c :: more) ++ '\x7b' :: rest))
  have tagEarly := Text.splitFirst_first _ _ _ _ tag front _ rfl
  obtain ⟨first, tagGap, behindTag⟩ := Text.append_ahead _ _ _ _ (Text.splitFirst_append _ _ _ _ tag).symm (by
    rw [List.length_append, List.length_append]
    exact Nat.add_le_add_right tagEarly _)
  rw [← List.append_assoc] at behindTag
  obtain ⟨⟨between, behind⟩, head⟩ := splitClassHead_isSome (first ++ middle) _ isHead
  rw [← behindTag] at head
  have headEarly := (splitClassHead_first _ _ _ head).2 (first ++ middle) _ behindTag isHead
  obtain ⟨second, headGap, behindHead⟩ := Text.append_ahead _ _ _ _
    ((splitClassHead_append _ _ _ head).symm.trans behindTag) headEarly
  have bracePlace : behind = (second ++ (keyword ++ blank :: c :: more)) ++ ['\x7b'] ++ rest := by
    rw [behindHead]
    simp only [List.append_assoc, List.cons_append, List.nil_append]
  obtain ⟨⟨opening, last⟩, brace⟩ := Text.splitFirst_isSome ['\x7b'] (second ++ (keyword ++ blank :: c :: more)) rest
  rw [← bracePlace] at brace
  have braceEarly := Text.splitFirst_first _ _ _ _ brace _ _ bracePlace
  refine ⟨lead ++ ['<', '?'] ++ between ++ opening ++ ['\x7b'], last, ?_, ?_⟩
  · simp only [splitBodyOpen?, tag, head, brace, Option.bind_eq_bind, Option.bind_some, Option.pure_def]
  · have tagSize := congrArg List.length tagGap
    have headSize := congrArg List.length headGap
    simp only [List.length_append, List.length_cons, List.length_nil] at tagSize headSize braceEarly ⊢
    omega

private theorem startsBody_of_split (text lead tail : Text) (found : splitBodyOpen? text = some (lead, tail)) :
    StartsBody text lead.length := by
  have whole := splitBodyOpen_append text lead tail found
  constructor
  · rw [whole, List.take_left]
    exact opensBody_of_split text lead tail found
  · intro earlier before opens
    obtain ⟨other, rest, again, bound⟩ := exists_split_of_opensBody (text.take earlier) (text.drop earlier) opens
    rw [List.take_append_drop, found] at again
    cases again
    have short := List.length_take_le earlier text
    omega

def classMention (snapshot : Snapshot) : Text :=
  "class ".toList ++ snapshot.shortName

/-- A patch that places a block: in exchange for the doc comment of the class, or on a line before its first mention,
or nowhere if there is neither. -/
inductive PlacesBlock (snapshot : Snapshot) (block : Text) : Patch → Prop
  | exchanged (offset : Nat) (old : Text) (attached : snapshot.docComment = some old) :
      PlacesBlock snapshot block ⟨offset, old, block⟩
  | added (offset : Nat) (bare : snapshot.docComment = none)
      (mentioned : classMention snapshot <+: snapshot.source.drop offset) :
      PlacesBlock snapshot block ⟨offset, [], block ++ ['\n']⟩
  | nowhere (offset : Nat) (bare : snapshot.docComment = none)
      (unmentioned : ¬ classMention snapshot <:+: snapshot.source) :
      PlacesBlock snapshot block ⟨offset, [], []⟩

/-- A patch that puts members on lines of their own, with an empty line between them, unless there is none or the text
has no place for them. -/
inductive AddsMembers (members : List Text) (HasPlace : Prop) (IsPlace : Nat → Prop) : Patch → Prop
  | added (offset : Nat) (lacking : members ≠ []) (place : IsPlace offset) :
      AddsMembers members HasPlace IsPlace ⟨offset, [], '\n' :: (Text.joinWith ['\n', '\n'] members ++ ['\n'])⟩
  | nowhere (offset : Nat) (reason : members = [] ∨ ¬ HasPlace) : AddsMembers members HasPlace IsPlace ⟨offset, [], []⟩

def HasBody (text : Text) : Prop :=
  ∃ part rest, text = part ++ rest ∧ OpensBody part

def ClosesLast (text : Text) (offset : Nat) : Prop :=
  ∃ tail, text.drop offset = '\x7d' :: tail ∧ '\x7d' ∉ tail

/-- The edit of a document in three steps, each on the text that the one before has left. -/
structure Steps (snapshot : Snapshot) (registry : Registry) (block edited : Text) where
  first : Patch
  second : Patch
  third : Patch
  placed : Text
  filled : Text
  turnsFirst : first.Turns snapshot.source placed
  turnsSecond : second.Turns placed filled
  turnsThird : third.Turns filled edited
  placesBlock : PlacesBlock snapshot block first
  addsProperties : AddsMembers
    ((registry.declaredProperties.filter fun property => !snapshot.properties.contains property.name).map
      DeclaredProperty.code) (HasBody placed) (StartsBody placed) second
  addsMethods : AddsMembers
    ((registry.declaredMethods.filter fun method =>
        !snapshot.methods.any fun own => Text.lower own == Text.lower method.name).map DeclaredMethod.code)
    ('\x7d' ∈ filled) (ClosesLast filled) third

def Steps.undo {snapshot : Snapshot} {registry : Registry} {block edited : Text}
    (steps : Steps snapshot registry block edited) (text : Text) : Text :=
  steps.first.inverse.apply (steps.second.inverse.apply (steps.third.inverse.apply text))

private theorem Steps.undo_edited {snapshot : Snapshot} {registry : Registry} {block edited : Text}
    (steps : Steps snapshot registry block edited) : steps.undo edited = snapshot.source := by
  unfold undo
  rw [steps.turnsThird.undone, steps.turnsSecond.undone, steps.turnsFirst.undone]

private theorem exists_patch_placeBlock (snapshot : Snapshot) (block : Text)
    (occurs : ∀ old, snapshot.docComment = some old → old <:+: snapshot.source) :
    ∃ patch : Patch,
      patch.Turns snapshot.source (placeBlock snapshot.source snapshot.docComment block snapshot.shortName) ∧
        PlacesBlock snapshot block patch := by
  cases attached : snapshot.docComment with
  | some old =>
      obtain ⟨before, behind, whole⟩ := occurs old attached
      obtain ⟨⟨lead, tail⟩, found⟩ := Text.splitFirst_isSome old before behind
      rw [whole] at found
      refine ⟨⟨lead.length, old, block⟩, Patch.turns_of_cut lead old block tail ?_ ?_,
        .exchanged lead.length old attached⟩
      · rw [Text.splitFirst_append _ _ _ _ found, List.append_assoc]
      · rw [placeBlock_first _ _ _ _ found, List.append_assoc]
  | none =>
      cases found : Text.splitFirst? (classMention snapshot) snapshot.source with
      | some parts =>
          obtain ⟨lead, tail⟩ := parts
          have whole := Text.splitFirst_append _ _ _ _ found
          rw [List.append_assoc] at whole
          refine ⟨⟨lead.length, [], block ++ ['\n']⟩, Patch.turns_of_cut lead [] _ (classMention snapshot ++ tail) whole
            (placeBlock_before _ _ lead tail found block), .added lead.length attached ?_⟩
          rw [whole, List.drop_left]
          exact List.prefix_append _ tail
      | none =>
          refine ⟨⟨0, [], []⟩, ?_, .nowhere 0 attached ?_⟩
          · rw [placeBlock_missing _ _ none found]
            exact Patch.turns_same snapshot.source
          · rintro ⟨before, behind, whole⟩
            obtain ⟨parts, known⟩ := Text.splitFirst_isSome (classMention snapshot) before behind
            rw [whole, found] at known
            cases known

/-- The step of an insertion: nothing is inserted without a need, nor without a place. -/
theorem exists_patch_of_insertion {members : List Text} {HasPlace : Prop} {IsPlace : Nat → Prop} {text result : Text}
    (unneeded : members = [] → result = text)
    (needed : members ≠ [] →
      (∃ lead tail, text = lead ++ tail ∧ result = lead ++ (inserted members ++ tail) ∧ IsPlace lead.length) ∨
        (result = text ∧ ¬ HasPlace)) :
    ∃ patch : Patch, patch.Turns text result ∧ AddsMembers members HasPlace IsPlace patch := by
  by_cases nothing : members = []
  · rw [unneeded nothing]
    exact ⟨⟨0, [], []⟩, Patch.turns_same text, .nowhere 0 (.inl nothing)⟩
  · rcases needed nothing with ⟨lead, tail, whole, filled, place⟩ | ⟨same, noPlace⟩
    · rw [inserted, if_neg nothing] at filled
      exact ⟨⟨lead.length, [], memberBlock members⟩, Patch.turns_of_cut lead [] _ tail whole filled,
        .added lead.length nothing place⟩
    · rw [same]
      exact ⟨⟨0, [], []⟩, Patch.turns_same text, .nowhere 0 (.inr noPlace)⟩

private theorem exists_patch_insertProperties (text : Text) (members : List Text) :
    ∃ patch : Patch, patch.Turns text (insertProperties text members) ∧
      AddsMembers members (HasBody text) (StartsBody text) patch := by
  apply exists_patch_of_insertion
  · exact fun nothing => if_pos nothing
  · intro lacking
    cases found : splitBodyOpen? text with
    | some parts =>
        obtain ⟨lead, tail⟩ := parts
        have whole := splitBodyOpen_append _ _ _ found
        exact .inl ⟨lead, tail, whole, insertProperties_eq text lead tail members whole fun _ => found,
          startsBody_of_split _ _ _ found⟩
    | none =>
        refine .inr ⟨?_, ?_⟩
        · rw [insertProperties, if_neg lacking, found]
        · rintro ⟨part, rest, whole, opens⟩
          obtain ⟨lead, tail, known, _⟩ := exists_split_of_opensBody part rest opens
          rw [← whole, found] at known
          cases known

private theorem exists_patch_insertMethods (text : Text) (members : List Text) :
    ∃ patch : Patch, patch.Turns text (insertMethods text members) ∧
      AddsMembers members ('\x7d' ∈ text) (ClosesLast text) patch := by
  apply exists_patch_of_insertion
  · exact fun nothing => if_pos nothing
  · intro lacking
    cases found : Text.splitLast? '\x7d' text with
    | some parts =>
        obtain ⟨lead, tail⟩ := parts
        obtain ⟨whole, last⟩ := Text.splitLast_append _ _ _ _ found
        refine .inl ⟨lead, '\x7d' :: tail, whole, insertMethods_eq text lead tail members whole last, tail, ?_, last⟩
        rw [whole, List.drop_left]
    | none =>
        refine .inr ⟨?_, Text.splitLast_eq_none _ _ found⟩
        rw [insertMethods, if_neg lacking, found]

/-- Every edit is made of three steps that give back the document if they are undone. -/
theorem steps_of_edit (snapshot : Snapshot) (registry : Registry) (block : Text)
    (occurs : ∀ old, snapshot.docComment = some old → old <:+: snapshot.source) :
    ∃ steps : Steps snapshot registry block (edit snapshot registry block),
      steps.undo (edit snapshot registry block) = snapshot.source := by
  obtain ⟨first, turnsFirst, placesBlock⟩ := exists_patch_placeBlock snapshot block occurs
  obtain ⟨second, turnsSecond, addsProperties⟩ := exists_patch_insertProperties _
    ((missingProperties snapshot registry).map DeclaredProperty.code)
  obtain ⟨third, turnsThird, addsMethods⟩ := exists_patch_insertMethods _
    ((missingMethods snapshot registry).map DeclaredMethod.code)
  exact ⟨⟨first, second, third, _, _, turnsFirst, turnsSecond, turnsThird, placesBlock, addsProperties, addsMethods⟩,
    Steps.undo_edited _⟩

def invoiceSnapshot : Snapshot where
  name := "Invoice".toList
  instantiable := true
  properties := ["total".toList]
  methods := ["Send".toList]
  docComment := some "/** Old */".toList
  source := "<?php\n/** Old */\nclass Invoice \x7b\n    public function Send() \x7b\x7d\n\x7d\n".toList
  path := ⟨"/Invoice.php".toList⟩

def invoiceRegistry : Registry where
  virtualProperties := []
  virtualMethods := []
  declaredProperties := ["total", "paid"].map fun name => ⟨name.toList, none, none, false, [], .everyone⟩
  declaredMethods := ["send", "pay"].map fun name => ⟨name.toList, false, [], none, [], .everyone, []⟩

/-- A block that speaks of a class with an opening brace. -/
def invoiceBlock : Text :=
  "/** A class Invoice \x7b */".toList

/-- The property falls inside the new block, and the steps can be undone all the same. -/
theorem steps_of_edit_invoice :
    (∀ old, invoiceSnapshot.docComment = some old → old <:+: invoiceSnapshot.source) ∧
      edit invoiceSnapshot invoiceRegistry invoiceBlock =
        ("<?php\n/** A class Invoice \x7b\n    public $paid;\n */\nclass Invoice \x7b\n" ++
          "    public function Send() \x7b\x7d\n\n    public function pay() \x7b\n    \x7d\n\x7d\n").toList ∧
      ∃ steps : Steps invoiceSnapshot invoiceRegistry invoiceBlock
          (edit invoiceSnapshot invoiceRegistry invoiceBlock),
        steps.undo (edit invoiceSnapshot invoiceRegistry invoiceBlock) = invoiceSnapshot.source := by
  have occurs : ∀ old, invoiceSnapshot.docComment = some old → old <:+: invoiceSnapshot.source := by
    intro old attached
    cases attached
    exact ⟨"<?php\n".toList, "\nclass Invoice \x7b\n    public function Send() \x7b\x7d\n\x7d\n".toList,
      by decide +kernel⟩
  exact ⟨occurs, by decide +kernel, steps_of_edit invoiceSnapshot invoiceRegistry invoiceBlock occurs⟩

end MemberDoc.Insertion
