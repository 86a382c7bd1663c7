import MemberDoc.Proofs.VirtualTag

set_option autoImplicit false

/-! Which member the tag of a virtual member describes, whatever its type is. A property is hidden by a variable in its
type, and a method by a parenthesis that its return type opens outside brackets. -/

namespace MemberDoc.Tag

theorem variableOf_eq_none_iff (word : Text) : variableOf? word = none ↔ ∀ name, ¬ StartsVariable word name := by
  simp only [Option.eq_none_iff_forall_ne_some, ne_eq, variableOf_eq_some_iff]

theorem findSome_variable_eq_none_iff (words : List Text) :
    words.findSome? variableOf? = none ↔ ∀ word ∈ words, ∀ name, ¬ StartsVariable word name := by
  simp only [List.findSome?_eq_none_iff, variableOf_eq_none_iff]

theorem findSome_variable_eq_some_iff (words : List Text) (name : Text) :
    words.findSome? variableOf? = some name ↔
      ∃ before word after, words = before ++ word :: after ∧
        (∀ other ∈ before, ∀ hidden, ¬ StartsVariable other hidden) ∧ StartsVariable word name := by
  simp only [List.findSome?_eq_some_iff, variableOf_eq_some_iff, variableOf_eq_none_iff]
  constructor
  · rintro ⟨before, word, after, split, starts, earlier⟩
    exact ⟨before, word, after, split, earlier, starts⟩
  · rintro ⟨before, word, after, split, earlier, starts⟩
    exact ⟨before, word, after, split, starts, earlier⟩

def withoutStatic (line : Text) : Text :=
  (Text.after? "static ".toList line).getD line

private theorem Signature.withoutStatic_line (signature : Signature) :
    withoutStatic signature.line = signature.head ++ '(' :: signature.rest := by
  rw [withoutStatic, signature.after_line]
  cases static : signature.isStatic with
  | true => rfl
  | false => exact signature.line_eq static

private theorem eq_of_kindOfWord (isStatic other : Bool) (word : Option Text) (name : Text)
    (described : kindOfWord isStatic word = .method name other) : word = some name := by
  cases word with
  | none => cases described
  | some word =>
      rw [kindOfWord] at described
      split at described
      · cases described
        rfl
      · cases described

end MemberDoc.Tag

namespace MemberDoc

/-- The tag of a property has the name that its access asks for and describes some property, namely its own exactly when
no variable stands in the type or the first one there has its name. -/
theorem VirtualProperty.describes_itself_iff (property : VirtualProperty) (named : Text.IsAsciiName property.name)
    (unbroken : ∀ type, property.type = some type → '\n' ∉ type) :
    ∃ tag, property.tag? = some tag ∧
      tag.name = (if property.writable then if property.readable then "property".toList else "property-write".toList
        else "property-read".toList) ∧
      (∃ described, tag.kind = .property described) ∧
      (tag.kind = .property property.name ↔
        (∀ word ∈ property.typeWords, ∀ name, ¬ Tag.StartsVariable word name) ∨
          ∃ before word after, property.typeWords = before ++ word :: after ∧
            (∀ other ∈ before, ∀ name, ¬ Tag.StartsVariable other name) ∧ Tag.StartsVariable word property.name) := by
  obtain ⟨tag, made⟩ := property.tag_isSome
  obtain ⟨name, kind⟩ := property.kind_of_type named unbroken tag made
  refine ⟨tag, made, ?_, ⟨_, kind⟩, ?_⟩
  · rw [name, tagName]
    cases property.readable <;> cases property.writable <;> rfl
  · rw [kind, TagKind.property.injEq, ← Tag.findSome_variable_eq_none_iff, ← Tag.findSome_variable_eq_some_iff]
    cases property.typeWords.findSome? Tag.variableOf? with
    | none => simp
    | some hidden => simp

/-- A property whose type names the property itself, behind a word that only holds a dollar sign. -/
def keyProperty : VirtualProperty :=
  ⟨"id".toList, some "?$self\t &$id".toList, true, true, "The key.\n@see $other".toList⟩

def ownerProperty : VirtualProperty :=
  ⟨"owner".toList, some "null|$this $this".toList, false, true, []⟩

theorem VirtualProperty.describes_itself_iff_key :
    Text.IsAsciiName keyProperty.name ∧ Text.IsAsciiName ownerProperty.name ∧
      (∃ tag, keyProperty.tag? = some tag ∧ tag.name = "property".toList ∧ tag.kind = .property "id".toList) ∧
      ∃ tag, ownerProperty.tag? = some tag ∧ tag.name = "property-write".toList ∧
        tag.kind ≠ .property "owner".toList := by
  have keyNamed : Text.IsAsciiName keyProperty.name := by decide
  have ownerNamed : Text.IsAsciiName ownerProperty.name := by decide
  have keyVariable : keyProperty.typeWords.findSome? Tag.variableOf? = some "id".toList := by decide +kernel
  have ownerVariable : ownerProperty.typeWords.findSome? Tag.variableOf? = some "this".toList := by decide +kernel
  obtain ⟨key, keyMade, keyName, _, keyIff⟩ := keyProperty.describes_itself_iff keyNamed (by
    rintro type ⟨⟩
    decide)
  obtain ⟨owner, ownerMade, ownerName, _, ownerIff⟩ := ownerProperty.describes_itself_iff ownerNamed (by
    rintro type ⟨⟩
    decide)
  refine ⟨keyNamed, ownerNamed, ⟨key, keyMade, keyName, ?_⟩, owner, ownerMade, ownerName, ?_⟩
  · exact keyIff.mpr (Or.inr ((Tag.findSome_variable_eq_some_iff _ _).mp keyVariable))
  · intro described
    rcases ownerIff.mp described with unnamed | first
    · rw [(Tag.findSome_variable_eq_none_iff _).mpr unnamed] at ownerVariable
      cases ownerVariable
    · rw [(Tag.findSome_variable_eq_some_iff _ _).mpr first] at ownerVariable
      exact absurd ownerVariable (by decide)

/-- The tag of a method describes that method if its return type leaves all brackets and opens no parenthesis outside of
them. Otherwise the first such parenthesis decides: the last word before it is taken for the name of the method. -/
theorem VirtualMethod.described_by_signature (method : VirtualMethod) (named : Text.IsAsciiName method.name)
    (unbroken : '\n' ∉ method.returnType) :
    ∃ tag, method.tag? = some tag ∧ tag.name = "method".toList ∧
      (Tag.bracketDepth? 0 method.returnType = some 0 →
        tag.kind = .method method.name
          (method.isStatic || (Text.words method.returnType).head? == some "static".toList)) ∧
      (Tag.bracketDepth? 0 method.returnType = none →
        ∃ lead rest before after, method.returnType = lead ++ '(' :: rest ∧ Tag.bracketDepth? 0 lead = some 0 ∧
          Tag.withoutStatic tag.firstLine = before ++ '(' :: after ∧
          Tag.withoutStatic (Text.collapse ((if method.isStatic then "static ".toList else []) ++ lead ++ ['('])) =
            before ++ ['('] ∧
          tag.kind = Tag.kindOfWord (Text.startsWith "static ".toList tag.firstLine) (Text.words before).getLast? ∧
          ∀ isStatic, tag.kind = .method method.name isStatic →
            (Text.words before).getLast? = some method.name) := by
  obtain ⟨tag, made⟩ := method.tag_isSome
  obtain ⟨isMethod, more, line⟩ := method.firstLine_eq named unbroken tag made
  refine ⟨tag, made, isMethod, fun balanced => method.kind_of_balanced named unbroken balanced tag made,
    fun stops => ?_⟩
  obtain ⟨lead, rest, whole, outside⟩ := Tag.bracketDepth_eq_none 0 method.returnType stops
  have level : Tag.bracketDepth? 0 ((if method.isStatic then "static ".toList else []) ++ lead) = some 0 := by
    cases method.isStatic <;> exact outside
  -- The line is cut at the parenthesis of the type, so the name of the method stands behind the cut.
  obtain ⟨settled, stem, cut⟩ := Text.exists_cut ((if method.isStatic then "static ".toList else []) ++ lead)
  obtain ⟨signature, _, _, known, opened⟩ :=
    Tag.exists_signature cut level (rest ++ ' ' :: (method.name ++ '(' :: more))
  have split : method.lead = (if method.isStatic then "static ".toList else []) ++ lead ++ '(' :: rest := by
    rw [List.append_assoc, ← whole]
    rfl
  have signed : tag.firstLine = signature.line := by
    rw [line, known, split, List.append_assoc, List.cons_append]
  have kind := tag.kind_of_signature signature isMethod signed
  have last : signature.lastWord? = (Text.words signature.head).getLast? := by
    rw [signature.words_head]
    rfl
  refine ⟨lead, rest, signature.head, signature.rest, whole, outside, ?_, ?_, ?_, ?_⟩
  · rw [signed, signature.withoutStatic_line]
  · rw [← opened, signature.opened.withoutStatic_line, signature.rest_opened]
    rfl
  · rw [kind, signed, signature.startsWith_line, last]
  · intro isStatic described
    rw [kind, last] at described
    exact Tag.eq_of_kindOfWord _ _ _ _ described

/-- A method that returns what it was called on, wrapped, with parentheses inside brackets and a break in a default. -/
def rowMethod : VirtualMethod :=
  ⟨"row".toList, false, [⟨"at".toList, none, some "(\n)".toList⟩], some "static\tarray\x7brun: callable(int)\x7d".toList,
    "by (key)".toList⟩

def makerMethod : VirtualMethod :=
  ⟨"maker".toList, true, [], some "callable (int $x): string".toList, []⟩

/-- A parenthesis inside brackets does not hide the first method, and the second is taken for one named `callable`. -/
theorem VirtualMethod.described_by_signature_row :
    Text.IsAsciiName rowMethod.name ∧ '\n' ∉ rowMethod.returnType ∧ Text.IsAsciiName makerMethod.name ∧
      '\n' ∉ makerMethod.returnType ∧
      (∃ tag, rowMethod.tag? = some tag ∧ tag.kind = .method "row".toList true) ∧
      ∃ tag before after, makerMethod.tag? = some tag ∧ Tag.withoutStatic tag.firstLine = before ++ '(' :: after ∧
        tag.kind = Tag.kindOfWord true (Text.words before).getLast? ∧ tag.kind = .method "callable".toList true := by
  have rowNamed : Text.IsAsciiName rowMethod.name ∧ '\n' ∉ rowMethod.returnType := by decide
  have makerNamed : Text.IsAsciiName makerMethod.name ∧ '\n' ∉ makerMethod.returnType := by decide
  have seen : makerMethod.tag?.map (fun tag => (Text.startsWith "static ".toList tag.firstLine, tag.kind)) =
      some (true, .method "callable".toList true) := by
    decide +kernel
  obtain ⟨row, rowMade, _, rowKind, _⟩ := rowMethod.described_by_signature rowNamed.1 rowNamed.2
  obtain ⟨maker, makerMade, _, _, makerKind⟩ := makerMethod.described_by_signature makerNamed.1 makerNamed.2
  obtain ⟨_, _, before, after, _, _, line, _, kind, _⟩ := makerKind (by decide +kernel)
  rw [makerMade, Option.map_some, Option.some.injEq, Prod.mk.injEq] at seen
  rw [seen.1] at kind
  exact ⟨rowNamed.1, rowNamed.2, makerNamed.1, makerNamed.2, ⟨row, rowMade, rowKind (by decide +kernel)⟩,
    maker, before, after, makerMade, line, kind, seen.2⟩

end MemberDoc
