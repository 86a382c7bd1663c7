import MemberDoc.Insertion
import MemberDoc.Proofs.ClassBody
import MemberDoc.Proofs.CommentText
import MemberDoc.Proofs.NameText

set_option autoImplicit false

/-! Source text of declared members, read back from the body of a class. Each text reads from code to
code and declares the member that it was made for. -/

namespace MemberDoc.Source

/-- Code that closes its strings and comments and ends no statement. -/
def IsPlainCode (text : Text) : Prop :=
  ending .code text = .code ∧ ∀ c ∈ mask .code text, c ≠ '\x7b' ∧ c ≠ '\x7d' ∧ c ≠ ';'

instance (text : Text) : Decidable (IsPlainCode text) :=
  decidable_of_iff (ending .code text = .code ∧
      (mask .code text).all (fun c => decide (c ≠ '\x7b' ∧ c ≠ '\x7d' ∧ c ≠ ';')) = true)
    (and_congr_right fun _ => by simp only [List.all_eq_true, decide_eq_true_eq])

theorem IsPlainCode.reads {text : Text} (plain : IsPlainCode text) (c : Char) (rest : Text) (notStar : c ≠ '*')
    (notSlash : c ≠ '/') : Reads .code text (c :: rest) (mask .code text) .code := by
  apply reads_of_ending text (c :: rest) plain.1
  intro _
  simp [notStar, notSlash]

theorem function_cons (previous : Option Char) (c : Char) (rest : Text) :
    function? previous (c :: rest) =
      match if Text.startsWord previous then functionAt? (c :: rest) else none with
      | some found => some found
      | none => function? (some c) rest := by
  with_unfolding_all rfl

theorem function_inside (c : Char) (name behind : Text) (word : Text.isWord c = true)
    (words : ∀ d ∈ name, Text.isWord d = true) :
    ∃ last, Text.isWord last = true ∧ function? (some c) (name ++ behind) = function? (some last) behind ∧
      hasConst (some c) (name ++ behind) = hasConst (some last) behind := by
  induction name generalizing c with
  | nil => exact ⟨c, word, rfl, rfl⟩
  | cons d name ih =>
      obtain ⟨last, isLast, function, const⟩ := ih d (words d List.mem_cons_self)
        fun e member => words e (List.mem_cons_of_mem d member)
      refine ⟨last, isLast, ?_, ?_⟩
      · rw [List.cons_append, function_cons, if_neg (by simp [Text.startsWord, word])]
        exact function
      · rw [List.cons_append, hasConst]
        simp only [Text.startsWord, word, Bool.not_true, Bool.false_and, Bool.false_or]
        exact const

/-- What may follow the name of a property: nothing, or a value. -/
inductive IsValuePart : Text → Prop where
  | absent : IsValuePart []
  | value (text : Text) (noFunction : function? none text = none) (noConst : hasConst none text = false) :
      IsValuePart ([' ', '=', ' '] ++ text)

theorem IsValuePart.apart {behind : Text} (part : IsValuePart behind) (c : Char) (more : Text)
    (whole : behind = c :: more) : Text.isWord c = false ∧ Text.isNameChar c = false := by
  cases part with
  | absent => cases whole
  | value text =>
      obtain ⟨rfl, _⟩ := List.cons.inj whole
      exact ⟨rfl, rfl⟩

theorem IsValuePart.behind_word {behind : Text} (part : IsValuePart behind) (last : Char)
    (word : Text.isWord last = true) :
    function? (some last) behind = none ∧ hasConst (some last) behind = false := by
  cases part with
  | absent => exact ⟨rfl, rfl⟩
  | value text noFunction noConst =>
      have spaced : function? (some ' ') text = function? none text ∧ hasConst (some ' ') text = hasConst none text := by
        cases text with
        | nil => exact ⟨rfl, rfl⟩
        | cons c text => exact ⟨by rw [function_cons, function_cons]; rfl, by rw [hasConst, hasConst]; rfl⟩
      constructor
      · change function? (some last) (' ' :: '=' :: ' ' :: text) = none
        rw [function_cons, if_neg (by simp [Text.startsWord, word])]
        change function? (some ' ') text = none
        rw [spaced.1, noFunction]
      · change hasConst (some last) (' ' :: '=' :: ' ' :: text) = false
        rw [hasConst]
        simp only [Text.startsWord, word, Bool.not_true, Bool.false_and, Bool.false_or]
        change hasConst (some ' ') text = false
        rw [spaced.2, noConst]

private theorem functionAt_property (name behind : Text) (ascii : Text.IsAsciiName name) (part : IsValuePart behind) :
    functionAt? (name ++ behind) = none := by
  unfold functionAt?
  cases found : Text.afterKeyword? "function".toList (name ++ behind) with
  | none => rfl
  | some rest =>
      rcases Text.afterKeyword_word _ name behind rest (by decide) ascii.ascii
        (fun c more whole => (part.apart c more whole).1) found with ⟨_, rfl⟩ | ⟨c, more, rfl, word⟩
      · cases part with
        | absent => rfl
        | value text => rfl
      · have solid : Text.isBlank c = false := by
          cases blank : Text.isBlank c with
          | false => rfl
          | true =>
              rw [Text.not_isWord_of_isBlank c blank] at word
              cases word
        simp [solid]

private theorem function_property (name behind : Text) (ascii : Text.IsAsciiName name) (part : IsValuePart behind) :
    function? (some '$') (name ++ behind) = none := by
  have here := functionAt_property name behind ascii part
  obtain ⟨c, rest, whole, _⟩ := ascii.cons
  subst whole
  obtain ⟨last, word, function, _⟩ := function_inside c rest behind (ascii.isWord c List.mem_cons_self)
    fun d member => ascii.isWord d (List.mem_cons_of_mem c member)
  rw [List.cons_append] at here ⊢
  rw [function_cons, here, ite_self]
  exact function.trans (part.behind_word last word).1

private theorem hasConst_property (name behind : Text) (ascii : Text.IsAsciiName name) (part : IsValuePart behind)
    (notConst : Text.lower name ≠ "const".toList) : hasConst (some '$') (name ++ behind) = false := by
  have here (rest : Text) (found : Text.afterKeyword? "const".toList (name ++ behind) = some rest) :
      Text.endsWord rest = false := by
    rcases Text.afterKeyword_word _ name behind rest (by decide) ascii.ascii
      (fun c more whole => (part.apart c more whole).1) found with ⟨same, _⟩ | ⟨c, more, rfl, word⟩
    · exact absurd same notConst
    · simp [Text.endsWord, word]
  obtain ⟨c, rest, whole, _⟩ := ascii.cons
  subst whole
  obtain ⟨last, word, _, const⟩ := function_inside c rest behind (ascii.isWord c List.mem_cons_self)
    fun d member => ascii.isWord d (List.mem_cons_of_mem c member)
  rw [List.cons_append] at here ⊢
  rw [hasConst, Bool.or_eq_false_iff, Bool.and_eq_false_iff]
  refine ⟨.inr ?_, const.trans (part.behind_word last word).2⟩
  split
  · rename_i rest found
    exact here rest found
  · rfl

theorem dollarNames_cons (c : Char) (rest : Text) :
    Text.dollarNames (c :: rest) =
      match if c = '$' then Text.name? rest else none with
      | some (name, _) => name :: Text.dollarNames rest
      | none => Text.dollarNames rest := by
  with_unfolding_all rfl

private theorem dollarNames_plain (text : Text) (plain : '$' ∉ text) : Text.dollarNames text = [] := by
  induction text with
  | nil => rfl
  | cons c text ih =>
      have notHere : c ≠ '$' := fun same => plain (by rw [same]; exact List.mem_cons_self)
      rw [dollarNames_cons, if_neg notHere]
      exact ih fun member => plain (List.mem_cons_of_mem c member)

def propertyHead (visibility : Visibility) (isStatic : Bool) : Text :=
  visibility.keyword ++ staticPart isStatic ++ " $".toList

theorem propertyHead_facts (visibility : Visibility) (isStatic : Bool) (behind : Text) :
    stripAttributes none (propertyHead visibility isStatic ++ behind) = propertyHead visibility isStatic ++ behind ∧
      function? none (propertyHead visibility isStatic ++ behind) = function? (some '$') behind ∧
      hasConst none (propertyHead visibility isStatic ++ behind) = hasConst (some '$') behind ∧
      startsWithWord propertyWords (propertyHead visibility isStatic ++ behind) = true ∧
      Text.dollarNames (propertyHead visibility isStatic ++ behind) = Text.dollarNames ('$' :: behind) := by
  cases visibility <;> cases isStatic <;>
    exact ⟨rfl, by with_unfolding_all rfl, by with_unfolding_all rfl, by with_unfolding_all rfl,
      by with_unfolding_all rfl⟩

theorem ofStatement_property (visibility : Visibility) (isStatic : Bool) (name behind : Text)
    (ascii : Text.IsAsciiName name) (part : IsValuePart behind) (notConst : Text.lower name ≠ "const".toList)
    (noDollar : '$' ∉ behind) :
    MemberNames.ofStatement (propertyHead visibility isStatic ++ (name ++ behind)) = ⟨[name], []⟩ := by
  obtain ⟨bare, function, const, starts, dollars⟩ := propertyHead_facts visibility isStatic (name ++ behind)
  have plain : '$' ∉ name ++ behind := by
    rw [List.mem_append]
    rintro (inside | inside)
    · exact ascii.ne '$' '$' inside rfl rfl
    · exact noDollar inside
  have named := ascii.name_eq behind fun c more whole => (part.apart c more whole).2
  have names : Text.dollarNames ('$' :: (name ++ behind)) = [name] := by
    rw [dollarNames_cons, if_pos rfl, named, dollarNames_plain _ plain]
  unfold MemberNames.ofStatement MemberNames.addStatement
  rw [bare]
  dsimp only
  rw [function, function_property name behind ascii part]
  dsimp only
  rw [starts, const, hasConst_property name behind ascii part notConst, dollars, names]
  rfl

def methodHead (visibility : Visibility) (isStatic : Bool) : Text :=
  visibility.keyword ++ staticPart isStatic ++ " function ".toList

private theorem functionAt_method (name after : Text) (ascii : Text.IsAsciiName name) :
    functionAt? ("function ".toList ++ (name ++ '(' :: after)) = some (name, after) := by
  have late := ascii.lateName_eq ('(' :: after) fun c more whole => by
    obtain ⟨rfl, _⟩ := List.cons.inj whole
    rfl
  obtain ⟨c, rest, whole, _⟩ := ascii.cons
  have solid := ascii.not_blank c (by rw [whole]; exact List.mem_cons_self)
  have notReference := ascii.ne c '&' (by rw [whole]; exact List.mem_cons_self) rfl
  have keyword : Text.afterKeyword? "function".toList ("function ".toList ++ (name ++ '(' :: after)) =
      some (' ' :: (name ++ '(' :: after)) := rfl
  have trimmed : Text.trimStart (name ++ '(' :: after) = name ++ '(' :: after := by
    rw [whole, List.cons_append, Text.trimStart_cons c _ solid]
  have opened : Text.trimStart ('(' :: after) = '(' :: after := Text.trimStart_cons '(' after rfl
  subst whole
  rw [List.cons_append] at keyword trimmed late ⊢
  have blank : Text.isBlank ' ' = true := rfl
  unfold functionAt?
  rw [keyword]
  simp [trimmed, late, opened, notReference, blank]

private theorem methodHead_facts (visibility : Visibility) (isStatic : Bool) (behind : Text) :
    stripAttributes none (methodHead visibility isStatic ++ behind) = methodHead visibility isStatic ++ behind ∧
      function? none (methodHead visibility isStatic ++ behind) =
        (match functionAt? ("function ".toList ++ behind) with
        | some found => some found
        | none => function? (some 'f') ("unction ".toList ++ behind)) := by
  cases visibility <;> cases isStatic <;> exact ⟨rfl, by with_unfolding_all rfl⟩

private theorem ofStatement_method (visibility : Visibility) (isStatic : Bool) (name after : Text)
    (ascii : Text.IsAsciiName name) :
    MemberNames.ofStatement (methodHead visibility isStatic ++ (name ++ '(' :: after)) =
      ⟨(if Text.sameName name "__construct".toList then promotedParameters after else []).foldl Text.pushNew [],
        [name]⟩ := by
  obtain ⟨bare, function⟩ := methodHead_facts visibility isStatic (name ++ '(' :: after)
  rw [functionAt_method name after ascii] at function
  unfold MemberNames.ofStatement MemberNames.addStatement
  rw [bare]
  dsimp only
  rw [function]
  rfl

private theorem isBlank_of_mem_hide (text : Text) (c : Char) (member : c ∈ hide text) : Text.isBlank c = true := by
  rcases isSpace_of_mem_hide text c member with rfl | rfl <;> rfl

private theorem reads_memberComment (lines : List Text) (unclosed : ∀ line ∈ lines, Unclosed line) (rest : Text) :
    ∃ pad, Reads .code (memberComment lines) rest pad .code ∧ ∀ c ∈ pad, Text.isBlank c = true := by
  unfold memberComment
  split
  · exact ⟨[], .done .code rest, fun c member => absurd member List.not_mem_nil⟩
  · have pieces : ∀ line ∈ lines, Unclosed (indent ++ " * ".toList ++ line ++ ['\n']) ∧
        (indent ++ " * ".toList ++ line ++ ['\n']).head? ≠ some '/' := by
      intro line member
      refine ⟨?_, by simp [indent]⟩
      have gutter : Unclosed (indent ++ " *".toList) := by decide
      have front := gutter.append_cons ' ' (by decide) (by decide) (unclosed line member)
      have whole := front.append_cons '\n' (by decide) (by decide) unclosed_nil
      simpa [indent] using whole
    obtain ⟨body, _⟩ := unclosed_flatMap lines (fun line => indent ++ " * ".toList ++ line ++ ['\n']) pieces
    generalize lines.flatMap (fun line => indent ++ " * ".toList ++ line ++ ['\n']) = text at body
    have inner : Unclosed ('*' :: '\n' :: (text ++ (indent ++ [' ']))) := by
      have star : Unclosed ['*'] := by decide
      exact star.append_cons '\n' (by decide) (by decide) (body.append (by decide) fun _ => by simp [indent])
    have spaces : ∀ c ∈ indent, isInert c = true := Text.forall_of_all (by decide)
    have split : indent ++ "/**\n".toList ++ text ++ indent ++ " */\n".toList =
        indent ++ ((['/', '*'] ++ ('*' :: '\n' :: (text ++ (indent ++ [' '])) ++ ['*', '/'])) ++ ['\n']) := by
      simp [indent]
    rw [split]
    refine ⟨_, (reads_inert indent _ spaces).append ((reads_comment _ _ inner).append
      (reads_inert ['\n'] rest (Text.forall_of_all (by decide)))), fun c member => ?_⟩
    rcases List.mem_append.mp member with inIndent | later
    · have blank : ∀ c ∈ indent, Text.isBlank c = true := Text.forall_of_all (by decide)
      exact blank c inIndent
    · rcases List.mem_append.mp later with hidden | feed
      · exact isBlank_of_mem_hide _ c hidden
      · rw [List.mem_singleton.mp feed]
        rfl

end MemberDoc.Source

namespace MemberDoc

open Source

/-- A value that neither ends its statement nor declares anything. -/
structure IsPlainValue (value : Text) : Prop where
  code : IsPlainCode value
  noDollar : '$' ∉ mask .code value
  noFunction : function? none (mask .code value) = none
  noConst : hasConst none (mask .code value) = false

/-- A declared property whose text is one statement behind one comment. -/
structure DeclaredProperty.IsPlain (property : DeclaredProperty) : Prop where
  name : Text.IsAsciiName property.name
  notConst : Text.lower property.name ≠ "const".toList
  comment : Unclosed property.comment
  type : ∀ type, property.type = some type → Unclosed type
  default : ∀ value, property.default = some value → IsPlainValue value

def DeclaredProperty.valueText (property : DeclaredProperty) : Text :=
  match property.default with
  | some (c :: value) => " = ".toList ++ c :: value
  | _ => []

def DeclaredProperty.Declares (property : DeclaredProperty) : MemberName → Prop
  | .property name => name = property.name
  | .method _ => False

structure Contributes (text : Text) (declares : MemberName → Prop) : Prop where
  complete : IsComplete text
  has : ∀ member, (memberNames text).Has member ↔ declares member

/-- A part of a body that holds one statement, behind blanks. -/
structure IsStatement (text statement : Text) : Prop where
  closed : braceDepth? 0 text = some 0
  split : ∃ pad, (∀ c ∈ pad, Text.isBlank c = true) ∧ statements 0 text = [pad ++ statement, []]

private theorem isStatement_semicolon (pad statement : Text) (blank : ∀ c ∈ pad, Text.isBlank c = true)
    (plain : ∀ c ∈ statement, c ≠ '\x7b' ∧ c ≠ '\x7d' ∧ c ≠ ';') : IsStatement (pad ++ statement ++ [';']) statement := by
  have whole := List.forall_mem_append.mpr ⟨plain_of_blank pad blank, plain⟩
  refine ⟨?_, pad, blank, statements_semicolon _ whole⟩
  rw [braceDepth_inner 0 0 _ _ (braceDepth_flat 0 _ fun c member => ⟨(whole c member).1, (whole c member).2.1⟩)]
  rfl

private theorem isStatement_braced (pad statement inner : Text) (blank : ∀ c ∈ pad, Text.isBlank c = true)
    (plain : ∀ c ∈ statement, c ≠ '\x7b' ∧ c ≠ '\x7d' ∧ c ≠ ';') (nested : braceDepth? 0 inner = some 0) :
    IsStatement (pad ++ statement ++ '\x7b' :: (inner ++ ['\x7d'])) statement := by
  have whole := List.forall_mem_append.mpr ⟨plain_of_blank pad blank, plain⟩
  refine ⟨?_, pad, blank, statements_braced _ _ whole nested⟩
  rw [braceDepth_inner 0 0 _ _ (braceDepth_flat 0 _ fun c member => ⟨(whole c member).1, (whole c member).2.1⟩),
    braceDepth_cons, if_pos rfl, braceDepth_inner 1 1 _ _ (braceDepth_shift 0 0 _ nested)]
  rfl

theorem IsStatement.complete {text statement : Text} (holds : IsStatement text statement) : IsComplete text := by
  obtain ⟨pad, _, split⟩ := holds.split
  exact ⟨holds.closed, [pad ++ statement], [], split, fun c member => absurd member List.not_mem_nil⟩

theorem IsStatement.memberNames_eq {text statement : Text} (holds : IsStatement text statement) :
    memberNames text = MemberNames.ofStatement statement := by
  obtain ⟨pad, blank, split⟩ := holds.split
  unfold memberNames
  rw [split, ← ofStatement_pad pad statement blank]
  rfl

theorem IsStatement.contributes {text statement : Text} {declares : MemberName → Prop}
    (holds : IsStatement text statement)
    (has : ∀ member, (MemberNames.ofStatement statement).Has member ↔ declares member) : Contributes text declares :=
  ⟨holds.complete, fun member => by rw [holds.memberNames_eq, has]⟩

/-- A declared property whose text is one statement behind one comment, whatever its value says. -/
structure DeclaredProperty.IsEnclosed (property : DeclaredProperty) : Prop where
  name : Text.IsAsciiName property.name
  comment : Unclosed property.comment
  type : ∀ type, property.type = some type → Unclosed type
  default : ∀ value, property.default = some value → IsPlainCode value

private theorem DeclaredProperty.IsPlain.isEnclosed {property : DeclaredProperty} (plain : property.IsPlain) :
    property.IsEnclosed :=
  ⟨plain.name, plain.comment, plain.type, fun value known => (plain.default value known).code⟩

private theorem DeclaredProperty.reads_value (property : DeclaredProperty)
    (plain : ∀ value, property.default = some value → IsPlainCode value) (rest : Text) :
    Reads .code property.valueText (';' :: rest) (mask .code property.valueText) .code ∧
      ∀ c ∈ mask .code property.valueText, c ≠ '\x7b' ∧ c ≠ '\x7d' ∧ c ≠ ';' := by
  unfold DeclaredProperty.valueText
  split
  · rename_i c value known
    have text := plain _ known
    have equals : ∀ d ∈ " = ".toList, isInert d = true ∧ d ≠ '\x7b' ∧ d ≠ '\x7d' ∧ d ≠ ';' :=
      Text.forall_of_all (by decide)
    have reads := (reads_inert " = ".toList _ fun d member => (equals d member).1).append
      (text.reads ';' rest (by decide) (by decide))
    rw [← reads.shown_eq]
    refine ⟨reads, fun d member => ?_⟩
    rcases List.mem_append.mp member with front | inside
    · exact (equals d front).2
    · exact text.2 d inside
  · exact ⟨.done .code _, fun c member => absurd member List.not_mem_nil⟩

theorem DeclaredProperty.isValuePart (property : DeclaredProperty) (plain : property.IsPlain) :
    IsValuePart (mask .code property.valueText) ∧ '$' ∉ mask .code property.valueText := by
  unfold DeclaredProperty.valueText
  split
  · rename_i c value known
    have text := plain.default _ known
    have reads := reads_inert " = ".toList (c :: value) (Text.forall_of_all (by decide))
    rw [reads.mask_eq]
    refine ⟨.value _ text.noFunction text.noConst, fun member => ?_⟩
    rcases List.mem_append.mp member with front | inside
    · exact absurd front (by decide)
    · exact text.noDollar inside
  · exact ⟨.absent, List.not_mem_nil⟩

private theorem plain_propertyHead (visibility : Visibility) (isStatic : Bool) :
    ∀ c ∈ propertyHead visibility isStatic, isInert c = true ∧ c ≠ '\x7b' ∧ c ≠ '\x7d' ∧ c ≠ ';' := by
  cases visibility <;> cases isStatic <;> exact Text.forall_of_all (by decide)

theorem plain_asciiName (name : Text) (ascii : Text.IsAsciiName name) :
    ∀ c ∈ name, isInert c = true ∧ c ≠ '\x7b' ∧ c ≠ '\x7d' ∧ c ≠ ';' := by
  intro c member
  exact ⟨isInert_of_isWord c (ascii.isWord c member), ascii.ne c _ member rfl, ascii.ne c _ member rfl,
    ascii.ne c _ member rfl⟩

theorem plain_indent : ∀ c ∈ indent, isInert c = true ∧ Text.isBlank c = true :=
  Text.forall_of_all (by decide)

/-- The comment of a member is read as blanks, so its code starts with its head. -/
theorem reads_commented (lines : List Text) (unclosed : ∀ line ∈ lines, Unclosed line) (head text rest shown : Text)
    (inert : ∀ c ∈ head, isInert c = true) (reads : Reads .code text rest shown .code) :
    ∃ pad, Reads .code (memberComment lines ++ (indent ++ (head ++ text))) rest (pad ++ (head ++ shown)) .code ∧
      ∀ c ∈ pad, Text.isBlank c = true := by
  obtain ⟨pad, commented, blank⟩ := reads_memberComment lines unclosed (indent ++ (head ++ text) ++ rest)
  refine ⟨pad ++ indent, ?_, List.forall_mem_append.mpr ⟨blank, fun c member => (plain_indent c member).2⟩⟩
  rw [List.append_assoc]
  exact commented.append ((reads_inert indent _ fun c member => (plain_indent c member).1).append
    ((reads_inert head _ inert).append reads))

def DeclaredProperty.statement (property : DeclaredProperty) : Text :=
  propertyHead property.visibility property.isStatic ++ (property.name ++ mask .code property.valueText)

theorem DeclaredProperty.reads_statement (property : DeclaredProperty) (enclosed : property.IsEnclosed) (rest : Text) :
    ∃ shown, Reads .code property.code rest shown .code ∧ IsStatement shown property.statement ∧
      shown.getLast? = some ';' := by
  have lines : ∀ line ∈ Text.lines property.comment ++ property.type.toList.map ("@var ".toList ++ ·),
      Unclosed line := by
    intro line member
    rcases List.mem_append.mp member with inComment | inType
    · exact enclosed.comment.lines inComment
    · obtain ⟨type, known, rfl⟩ := List.mem_map.mp inType
      have marker : Unclosed "@var".toList := by decide
      have whole := marker.append_cons ' ' (by decide) (by decide) (enclosed.type type (Option.mem_toList.mp known))
      simpa using whole
  have split : property.code =
      memberComment (Text.lines property.comment ++ property.type.toList.map ("@var ".toList ++ ·)) ++
        (indent ++ ((propertyHead property.visibility property.isStatic ++ property.name) ++
          (property.valueText ++ [';']))) := by
    unfold DeclaredProperty.code propertyHead
    simp only [List.append_assoc]
    rfl
  obtain ⟨value, valuePlain⟩ := property.reads_value enclosed.default rest
  have head := List.forall_mem_append.mpr
    ⟨plain_propertyHead property.visibility property.isStatic, plain_asciiName property.name enclosed.name⟩
  have semicolon : Reads .code [';'] rest [';'] .code := reads_inert [';'] rest (Text.forall_of_all (by decide))
  obtain ⟨pad, reads, blank⟩ := reads_commented _ lines (propertyHead property.visibility property.isStatic ++ property.name)
    _ rest _ (fun c member => (head c member).1) (Reads.append value semicolon)
  refine ⟨_, by rw [split]; exact reads, ?_⟩
  have shape : pad ++ ((propertyHead property.visibility property.isStatic ++ property.name) ++
      (mask .code property.valueText ++ [';'])) = pad ++ property.statement ++ [';'] := by
    simp only [DeclaredProperty.statement, List.append_assoc]
  have plain : ∀ c ∈ property.statement, c ≠ '\x7b' ∧ c ≠ '\x7d' ∧ c ≠ ';' := by
    rw [DeclaredProperty.statement, ← List.append_assoc]
    exact List.forall_mem_append.mpr ⟨fun c member => (head c member).2, valuePlain⟩
  rw [shape]
  exact ⟨isStatement_semicolon pad _ blank plain, List.getLast?_concat⟩

theorem DeclaredProperty.reads_code (property : DeclaredProperty) (plain : property.IsPlain) (rest : Text) :
    ∃ shown, Reads .code property.code rest shown .code ∧ Contributes shown property.Declares ∧
      shown.getLast? = some ';' := by
  obtain ⟨shown, reads, holds, last⟩ := property.reads_statement plain.isEnclosed rest
  obtain ⟨part, noDollar⟩ := property.isValuePart plain
  refine ⟨shown, reads, holds.contributes fun member => ?_, last⟩
  rw [DeclaredProperty.statement, ofStatement_property _ _ _ _ plain.name part plain.notConst noDollar]
  cases member with
  | property other => simp [MemberNames.Has, DeclaredProperty.Declares]
  | method other => simp [MemberNames.Has, DeclaredProperty.Declares]

def DeclaredMethod.parametersText (method : DeclaredMethod) : Text :=
  Argument.signatures method.arguments ++ ')' ::
    ((match method.returns with
      | some type => " : ".toList ++ type
      | none => []) ++ [' '])

def DeclaredMethod.bodyText (method : DeclaredMethod) : Text :=
  (Text.lines method.body).flatMap bodyLine

/-- A declared method whose text is one head and one block behind one comment. -/
structure DeclaredMethod.IsPlain (method : DeclaredMethod) : Prop where
  name : Text.IsAsciiName method.name
  comment : Unclosed method.comment
  arguments : IsPlainCode (Argument.signatures method.arguments)
  returns : ∀ type, method.returns = some type → IsPlainCode type
  body : ending .code method.bodyText = .code
  balanced : braceDepth? 0 (mask .code method.bodyText) = some 0

def DeclaredMethod.promoted (method : DeclaredMethod) : List Text :=
  if Text.sameName method.name "__construct".toList then promotedParameters (mask .code method.parametersText) else []

def DeclaredMethod.Declares (method : DeclaredMethod) : MemberName → Prop
  | .property name => name ∈ method.promoted
  | .method name => name = method.name

private theorem DeclaredMethod.reads_parameters (method : DeclaredMethod) (plain : method.IsPlain) (rest : Text) :
    Reads .code method.parametersText ('\x7b' :: rest) (mask .code method.parametersText) .code ∧
      ∀ c ∈ mask .code method.parametersText, c ≠ '\x7b' ∧ c ≠ '\x7d' ∧ c ≠ ';' := by
  have returned : ∃ shown, Reads .code ((match method.returns with
        | some type => " : ".toList ++ type
        | none => []) ++ [' ']) ('\x7b' :: rest) shown .code ∧
      ∀ c ∈ shown, c ≠ '\x7b' ∧ c ≠ '\x7d' ∧ c ≠ ';' := by
    have space : Reads .code [' '] ('\x7b' :: rest) [' '] .code := reads_inert _ _ (Text.forall_of_all (by decide))
    cases known : method.returns with
    | none => exact ⟨_, space, Text.forall_of_all (by decide)⟩
    | some type =>
        have typed := plain.returns type known
        have colon := reads_inert " : ".toList (type ++ [' '] ++ '\x7b' :: rest) (Text.forall_of_all (by decide))
        have spaced := (typed.reads ' ' ('\x7b' :: rest) (by decide) (by decide)).append space
        refine ⟨_, by rw [List.append_assoc]; exact colon.append spaced, fun c member => ?_⟩
        rcases List.mem_append.mp member with inColon | later
        · have marks : ∀ c ∈ " : ".toList, c ≠ '\x7b' ∧ c ≠ '\x7d' ∧ c ≠ ';' :=
            Text.forall_of_all (by decide)
          exact marks c inColon
        · rcases List.mem_append.mp later with inType | inSpace
          · exact typed.2 c inType
          · rw [List.mem_singleton.mp inSpace]
            decide
  obtain ⟨shown, reads, shownPlain⟩ := returned
  have whole : Reads .code method.parametersText ('\x7b' :: rest)
      (mask .code (Argument.signatures method.arguments) ++ ([')'] ++ shown)) .code :=
    (IsPlainCode.reads plain.arguments ')' _ (by decide) (by decide)).append
      ((reads_inert [')'] _ (Text.forall_of_all (by decide))).append reads)
  have same := whole.shown_eq
  rw [← same]
  refine ⟨whole, fun c member => ?_⟩
  rcases List.mem_append.mp member with inArguments | later
  · exact plain.arguments.2 c inArguments
  · rcases List.mem_append.mp later with inMark | inside
    · rw [List.mem_singleton.mp inMark]
      decide
    · exact shownPlain c inside

private theorem plain_methodHead (visibility : Visibility) (isStatic : Bool) :
    ∀ c ∈ methodHead visibility isStatic, isInert c = true ∧ c ≠ '\x7b' ∧ c ≠ '\x7d' ∧ c ≠ ';' := by
  cases visibility <;> cases isStatic <;> exact Text.forall_of_all (by decide)

def DeclaredMethod.statement (method : DeclaredMethod) : Text :=
  methodHead method.visibility method.isStatic ++ (method.name ++ '(' :: mask .code method.parametersText)

theorem DeclaredMethod.reads_statement (method : DeclaredMethod) (plain : method.IsPlain) (rest : Text) :
    ∃ shown, Reads .code method.code rest shown .code ∧ IsStatement shown method.statement := by
  have split : method.code = memberComment (Text.lines method.comment) ++
      (indent ++ ((methodHead method.visibility method.isStatic ++ (method.name ++ ['('])) ++
        (method.parametersText ++ (['\x7b', '\n'] ++ (method.bodyText ++ (indent ++ ['\x7d'])))))) := by
    unfold DeclaredMethod.code methodHead DeclaredMethod.parametersText
    simp only [List.append_assoc, List.cons_append, List.nil_append]
    rfl
  obtain ⟨parameters, parametersPlain⟩ :=
    method.reads_parameters plain ('\n' :: (method.bodyText ++ (indent ++ ['\x7d']) ++ rest))
  have head : ∀ c ∈ methodHead method.visibility method.isStatic ++ (method.name ++ ['(']),
      isInert c = true ∧ c ≠ '\x7b' ∧ c ≠ '\x7d' ∧ c ≠ ';' :=
    List.forall_mem_append.mpr ⟨plain_methodHead method.visibility method.isStatic,
      List.forall_mem_append.mpr ⟨plain_asciiName method.name plain.name, Text.forall_of_all (by decide)⟩⟩
  have body : Reads .code method.bodyText (indent ++ ['\x7d'] ++ rest) (mask .code method.bodyText) .code :=
    reads_of_ending _ _ plain.body fun _ => by simp [indent]
  have block : Reads .code (['\x7b', '\n'] ++ (method.bodyText ++ (indent ++ ['\x7d']))) rest
      (['\x7b', '\n'] ++ (mask .code method.bodyText ++ (indent ++ ['\x7d']))) .code :=
    (reads_inert _ _ (Text.forall_of_all (by decide))).append (body.append (reads_inert _ _ (Text.forall_of_all (by decide))))
  obtain ⟨pad, reads, blank⟩ := reads_commented _ (fun line member => plain.comment.lines member)
    (methodHead method.visibility method.isStatic ++ (method.name ++ ['('])) _ rest _ (fun c member => (head c member).1)
    (Reads.append parameters block)
  refine ⟨_, by rw [split]; exact reads, ?_⟩
  have inner : braceDepth? 0 ('\n' :: (mask .code method.bodyText ++ indent)) = some 0 := by
    have flat : HasNoBrace indent := by
      intro c member
      obtain ⟨notOpen, notClose, _⟩ := plain_of_blank indent (fun d inside => (plain_indent d inside).2) c member
      exact ⟨notOpen, notClose⟩
    rw [braceDepth_cons]
    change braceDepth? 0 (mask .code method.bodyText ++ indent) = some 0
    rw [braceDepth_inner 0 0 _ _ plain.balanced, braceDepth_flat 0 indent flat]
  generalize mask .code method.bodyText = shownBody at inner
  have shape : pad ++ ((methodHead method.visibility method.isStatic ++ (method.name ++ ['('])) ++
      (mask .code method.parametersText ++ (['\x7b', '\n'] ++ (shownBody ++ (indent ++ ['\x7d']))))) =
        pad ++ method.statement ++ '\x7b' :: (('\n' :: (shownBody ++ indent)) ++ ['\x7d']) := by
    simp only [DeclaredMethod.statement, List.append_assoc, List.cons_append, List.nil_append]
  have statementPlain : ∀ c ∈ method.statement, c ≠ '\x7b' ∧ c ≠ '\x7d' ∧ c ≠ ';' := by
    have joined : method.statement = (methodHead method.visibility method.isStatic ++ (method.name ++ ['('])) ++
        mask .code method.parametersText := by
      simp only [DeclaredMethod.statement, List.append_assoc, List.cons_append, List.nil_append]
    rw [joined]
    exact List.forall_mem_append.mpr ⟨fun c member => (head c member).2, parametersPlain⟩
  rw [shape]
  exact isStatement_braced pad _ _ blank statementPlain inner

theorem DeclaredMethod.ofStatement_eq (method : DeclaredMethod) (ascii : Text.IsAsciiName method.name) :
    MemberNames.ofStatement method.statement = ⟨method.promoted.foldl Text.pushNew [], [method.name]⟩ :=
  ofStatement_method method.visibility method.isStatic method.name (mask .code method.parametersText) ascii

theorem DeclaredMethod.reads_code (method : DeclaredMethod) (plain : method.IsPlain) (rest : Text) :
    ∃ shown, Reads .code method.code rest shown .code ∧ Contributes shown method.Declares := by
  obtain ⟨shown, reads, holds⟩ := method.reads_statement plain rest
  refine ⟨shown, reads, holds.contributes fun member => ?_⟩
  rw [method.ofStatement_eq plain.name]
  cases member with
  | property other =>
      simp only [MemberNames.Has, DeclaredMethod.Declares, mem_foldl_pushNew, List.not_mem_nil, false_or]
  | method other => simp only [MemberNames.Has, DeclaredMethod.Declares, List.mem_singleton]

theorem contributes_blank (text : Text) (blank : ∀ c ∈ text, Text.isBlank c = true) :
    Contributes text fun _ => False :=
  ⟨isComplete_blank text blank, fun member => iff_of_false (not_has_memberNames_blank text blank member) id⟩

private theorem Contributes.append {left right : Text} {first second : MemberName → Prop}
    (before : Contributes left first) (after : Contributes right second) :
    Contributes (left ++ right) fun member => first member ∨ second member :=
  ⟨before.complete.append after.complete, fun member => by
    rw [before.complete.has_append, before.has, after.has]⟩

theorem Contributes.congr {text : Text} {declares others : MemberName → Prop} (contributes : Contributes text declares)
    (same : ∀ member, declares member ↔ others member) : Contributes text others :=
  ⟨contributes.complete, fun member => (contributes.has member).trans (same member)⟩

theorem reads_joined (codes : List Text) (reads : ∀ code ∈ codes, ∀ rest, Reads .code code rest (mask .code code) .code)
    (rest : Text) :
    Reads .code (Text.joinWith ['\n', '\n'] codes) rest (Text.joinWith ['\n', '\n'] (codes.map (mask .code))) .code := by
  induction codes with
  | nil => exact .done .code rest
  | cons code codes ih =>
      have first := reads code List.mem_cons_self
      have others := ih fun other inside => reads other (List.mem_cons_of_mem code inside)
      cases codes with
      | nil =>
          simpa using first rest
      | cons next codes =>
          have gap := reads_inert ['\n', '\n'] (Text.joinWith ['\n', '\n'] (next :: codes) ++ rest)
            (Text.forall_of_all (by decide))
          rw [List.map_cons, List.map_cons, Text.joinWith_cons_cons, Text.joinWith_cons_cons, List.append_assoc,
            List.append_assoc]
          exact (first _).append (gap.append others)

theorem reads_memberBlock (codes : List Text)
    (reads : ∀ code ∈ codes, ∀ rest, Reads .code code rest (mask .code code) .code) (rest : Text) :
    Reads .code (Insertion.memberBlock codes) rest (Insertion.memberBlock (codes.map (mask .code))) .code := by
  have feed (more : Text) := reads_inert ['\n'] more (Text.forall_of_all (by decide))
  unfold Insertion.memberBlock
  rw [List.append_assoc, List.append_assoc]
  exact (feed _).append ((reads_joined codes reads _).append (feed rest))

theorem memberNames_joined {Member : Type} (members : List Member) (shown : Member → Text)
    (own : Member → MemberNames) (complete : ∀ member ∈ members, IsComplete (shown member))
    (names : ∀ member ∈ members, memberNames (shown member) = MemberNames.merge ⟨[], []⟩ (own member)) :
    IsComplete (Text.joinWith ['\n', '\n'] (members.map shown)) ∧
      ∀ before : MemberNames, before.merge (memberNames (Text.joinWith ['\n', '\n'] (members.map shown))) =
        ⟨(members.flatMap fun member => (own member).properties).foldl Text.pushNew before.properties,
          (members.flatMap fun member => (own member).methods).foldl Text.pushNew before.methods⟩ := by
  induction members with
  | nil => exact ⟨isComplete_blank [] (by simp), fun before => rfl⟩
  | cons member members ih =>
      have first := complete member List.mem_cons_self
      have named (before : MemberNames) : before.merge (memberNames (shown member)) = before.merge (own member) := by
        rw [names member List.mem_cons_self, ← merge_assoc]
        rfl
      obtain ⟨othersComplete, others⟩ := ih (fun other inside => complete other (List.mem_cons_of_mem member inside))
        fun other inside => names other (List.mem_cons_of_mem member inside)
      cases members with
      | nil =>
          rw [List.map_cons, List.map_nil, Text.joinWith_singleton]
          refine ⟨first, fun before => ?_⟩
          rw [named]
          simp [MemberNames.merge]
      | cons next members =>
          have gap : ∀ c ∈ ['\n', '\n'], Text.isBlank c = true := Text.forall_of_all (by decide)
          have gapComplete := isComplete_blank _ gap
          rw [List.map_cons, List.map_cons, Text.joinWith_cons_cons, List.append_assoc]
          refine ⟨first.append (gapComplete.append othersComplete), fun before => ?_⟩
          rw [first.memberNames_append, gapComplete.memberNames_append, memberNames_blank _ gap, merge_memberNames,
            ← merge_assoc, named, ← List.map_cons, others]
          simp only [MemberNames.merge, List.flatMap_cons, List.foldl_append]

private theorem contributes_joined {Member : Type} (members : List Member) (shown : Member → Text)
    (declares : Member → MemberName → Prop) (own : ∀ member ∈ members, Contributes (shown member) (declares member)) :
    Contributes (Text.joinWith ['\n', '\n'] (members.map shown)) fun name => ∃ member ∈ members, declares member name := by
  obtain ⟨complete, joined⟩ := memberNames_joined members shown (fun member => memberNames (shown member))
    (fun member inside => (own member inside).complete) fun member _ => (merge_memberNames (shown member)).symm
  refine ⟨complete, fun name => ?_⟩
  have each : (∃ member ∈ members, (memberNames (shown member)).Has name) ↔ ∃ member ∈ members, declares member name :=
    exists_congr fun member => and_congr_right fun inside => (own member inside).has name
  rw [← merge_memberNames, joined, ← each]
  cases name with
  | property name => simp only [MemberNames.Has, mem_foldl_pushNew, List.not_mem_nil, false_or, List.mem_flatMap]
  | method name => simp only [MemberNames.Has, mem_foldl_pushNew, List.not_mem_nil, false_or, List.mem_flatMap]

theorem contributes_memberBlock {Member : Type} (members : List Member) (shown : Member → Text)
    (declares : Member → MemberName → Prop) (own : ∀ member ∈ members, Contributes (shown member) (declares member)) :
    Contributes (Insertion.memberBlock (members.map shown)) fun name => ∃ member ∈ members, declares member name := by
  have feed := contributes_blank ['\n'] (Text.forall_of_all (by decide))
  have joined := contributes_joined members shown declares own
  unfold Insertion.memberBlock
  rw [List.append_assoc]
  refine (feed.append (joined.append feed)).congr fun name => ?_
  simp only [false_or, or_false]

/-- A body that declares more, and is closed and complete if it was. -/
structure Grows (tail other : Text) (declares : MemberName → Prop) : Prop where
  has : ∀ name, (memberNames (bodyOf 0 other)).Has name ↔ (memberNames (bodyOf 0 tail)).Has name ∨ declares name
  closed : bodyOf 0 other = other ↔ bodyOf 0 tail = tail
  complete : bodyOf 0 tail ≠ tail → IsComplete (bodyOf 0 tail) → IsComplete (bodyOf 0 other)

theorem Grows.of_keepsBody {tail other : Text} {declares : MemberName → Prop} (keeps : KeepsBody tail other)
    (nothing : ∀ name, ¬ declares name) : Grows tail other declares where
  has := fun name => by rw [keeps.memberNames_eq, or_iff_left (nothing name)]
  closed := keeps.closed
  complete := keeps.isComplete

theorem Contributes.grows {text : Text} {declares : MemberName → Prop} (contributes : Contributes text declares)
    (tail : Text) : Grows tail (text ++ tail) declares := by
  have body := bodyOf_append 0 0 text tail contributes.complete.closed
  constructor
  · intro name
    rw [body, contributes.complete.has_append, contributes.has, or_comm]
  · rw [body, List.append_cancel_left_eq]
  · intro _ complete
    rw [body]
    exact contributes.complete.append complete

theorem Contributes.grows_before_brace {body text : Text} {declares : MemberName → Prop}
    (contributes : Contributes text declares) (own : IsComplete body) (rest : Text) :
    Grows (body ++ '\x7d' :: rest) (body ++ (text ++ '\x7d' :: rest)) declares := by
  have whole := own.append contributes.complete
  have before := bodyOf_before_brace body rest own.closed
  have after := bodyOf_before_brace (body ++ text) rest whole.closed
  rw [← List.append_assoc]
  constructor
  · intro name
    rw [before, after, own.has_append, contributes.has]
  · rw [before, after]
    exact iff_of_false (by simp) (by simp)
  · intro _ _
    rw [after]
    exact whole

end MemberDoc
