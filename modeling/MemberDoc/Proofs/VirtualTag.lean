import MemberDoc.Proofs.MemberCode
import MemberDoc.Proofs.MergedBlock
import MemberDoc.Proofs.MethodSignature

set_option autoImplicit false

/-! Tags of virtual members. What the tag made for a member describes is read off its first line, where the type comes
first; the tag of a plain member describes a member of that name. -/

namespace MemberDoc.Tag

/-- A first line is made of what follows the name without a line end. -/
theorem parse_firstLine (name first rest : Text) (tag : Tag)
    (parsed : parse? ('@' :: (name ++ ' ' :: (first ++ rest))) = some tag) (named : name ≠ [])
    (parts : ∀ c ∈ name, isNamePart c = true) (unbroken : '\n' ∉ first) (nonempty : first ≠ [])
    (firm : Text.EndsFirm first) :
    tag.name = name ∧ ∃ more, more <+: rest ∧ tag.firstLine = Text.collapse (first ++ more) := by
  have ends : Text.EndsFirm ('@' :: (name ++ ' ' :: first)) := by
    have longer := Text.endsFirm_append ('@' :: (name ++ [' '])) first nonempty firm
    simpa only [List.cons_append, List.append_assoc, List.nil_append] using longer
  have trimmed : Text.trim ('@' :: (name ++ ' ' :: (first ++ rest))) =
      '@' :: (name ++ ' ' :: (first ++ Text.trimEnd rest)) := by
    have split := Text.trimEnd_append _ rest ends
    rw [Text.trim, Text.trimStart_cons '@' _ rfl]
    simpa only [List.cons_append, List.append_assoc] using split
  have taking : (name ++ ' ' :: (first ++ Text.trimEnd rest)).takeWhile isNamePart = name := by
    rw [List.takeWhile_append_of_pos parts, List.takeWhile_cons_of_neg (by decide), List.append_nil]
  have dropping : (name ++ ' ' :: (first ++ Text.trimEnd rest)).dropWhile isNamePart =
      ' ' :: first ++ Text.trimEnd rest := by
    rw [List.dropWhile_append_of_pos parts, List.dropWhile_cons_of_neg (by decide)]
    rfl
  have shown := parse_of_trim _ _ trimmed (by rw [taking]; exact named)
  rw [parsed, taking, dropping, Option.some.injEq] at shown
  obtain ⟨more, others, part, lines⟩ := Text.lines_lead (' ' :: first) (Text.trimEnd rest)
    (fun feed => unbroken (by
      rcases List.mem_cons.mp feed with wrong | inside
      · cases wrong
      · exact inside))
    (List.cons_ne_nil _ _) (Text.endsFirm_append [' '] first nonempty firm)
  refine ⟨by rw [shown], more, part.trans (Text.trimEnd_part rest), ?_⟩
  have solid : Text.collapse (first ++ more) ≠ [] := by
    have last := List.getLast?_eq_some_getLast nonempty
    exact Text.collapse_ne_nil _ _ (List.mem_append_left more (List.mem_of_getLast? last)) (firm _ last)
  have here : Text.collapse (' ' :: first ++ more) = Text.collapse (first ++ more) := Text.collapse_blank _
  rw [shown, firstLine, lines, List.map_cons, here, List.filter_cons_of_pos (by simpa using solid)]
  rfl

/-- A word starts with a variable of this name. A mark for a reference or for many values may stand before the dollar
sign, and the name is as long as it can be. -/
def StartsVariable (word name : Text) : Prop :=
  ∃ mark rest, mark ∈ [[], "&".toList, "...".toList] ∧ word = mark ++ '$' :: (name ++ rest) ∧
    Text.isIdentifier name = true ∧ Text.EndsName rest

theorem variableOf_eq_some_iff (word name : Text) : variableOf? word = some name ↔ StartsVariable word name := by
  constructor
  · intro found
    unfold variableOf? at found
    dsimp only at found
    split at found
    · rename_i text bare
      obtain ⟨⟨_, rest⟩, named, rfl⟩ := Option.map_eq_some_iff.mp found
      obtain ⟨rfl, identifier, ends⟩ := (Text.name_eq_some_iff _ _ _).mp named
      split at bare
      · exact ⟨"&".toList, rest, by simp, by rw [bare]; rfl, identifier, ends⟩
      · exact ⟨"...".toList, rest, by simp, by rw [bare]; rfl, identifier, ends⟩
      · exact ⟨[], rest, by simp, bare, identifier, ends⟩
    · cases found
  · rintro ⟨mark, rest, listed, rfl, identifier, ends⟩
    have named := (Text.name_eq_some_iff _ _ _).mpr ⟨rfl, identifier, ends⟩
    have marked : variableOf? (mark ++ '$' :: (name ++ rest)) = (Text.name? (name ++ rest)).map Prod.fst := by
      simp only [List.mem_cons, List.not_mem_nil, or_false] at listed
      rcases listed with rfl | rfl | rfl <;> rfl
    rw [marked, named]
    rfl

private theorem variableOf_eq_none (word : Text) (absent : '$' ∉ word) : variableOf? word = none := by
  rw [Option.eq_none_iff_forall_ne_some]
  intro name found
  obtain ⟨mark, rest, _, rfl, _⟩ := (variableOf_eq_some_iff word name).mp found
  exact absent (List.mem_append_right mark List.mem_cons_self)

private theorem variableOf_name (name : Text) (ascii : Text.IsAsciiName name) :
    variableOf? ('$' :: name) = some name := by
  rw [variableOf_eq_some_iff]
  exact ⟨[], [], by simp, by rw [List.append_nil]; rfl, ascii.1, fun c rest none => by cases none⟩

private theorem bracketDepth_name (depth : Nat) (name : Text) (ascii : Text.IsAsciiName name) :
    bracketDepth? depth name = some depth := by
  have marks : ∀ d ∈ brackets, Text.isWord d = false := Text.forall_of_all (by decide)
  have letters := ascii.isWord
  clear ascii
  induction name with
  | nil => rfl
  | cons c name ih =>
      rw [bracketDepth_skip depth c name, ih fun d member => letters d (List.mem_cons_of_mem c member)]
      intro member
      have word := letters c List.mem_cons_self
      rw [marks c member] at word
      cases word

/-- What a method tag describes, given the last word before the parenthesis of its signature. -/
def kindOfWord (isStatic : Bool) : Option Text → TagKind
  | some word => if Text.isIdentifier word then .method word isStatic else .other
  | none => .other

theorem kind_of_signature (tag : Tag) (signature : Signature) (isMethod : tag.name = "method".toList)
    (line : tag.firstLine = signature.line) : tag.kind = kindOfWord signature.isStatic signature.lastWord? := by
  unfold kind
  rw [isMethod, if_neg (by decide), if_pos rfl, line, signature.methodOf_line]
  cases signature.lastWord? with
  | none => rfl
  | some word =>
      rw [Option.filter_some, kindOfWord]
      cases Text.isIdentifier word <;> rfl

end MemberDoc.Tag

namespace MemberDoc

/-- A virtual property whose tag stands in a comment and names the property. -/
structure VirtualProperty.IsPlain (property : VirtualProperty) : Prop where
  name : Text.IsAsciiName property.name
  type : ∀ type, property.type = some type → '$' ∉ type ∧ '\n' ∉ type
  source : Source.Unclosed property.tagSource
  closed : ∀ tag, property.tag? = some tag → tag.IsClosed

/-- A virtual method whose tag stands in a comment and names the method. -/
structure VirtualMethod.IsPlain (method : VirtualMethod) : Prop where
  name : Text.IsAsciiName method.name
  returns : '\n' ∉ method.returns.getD "void".toList ∧
    Tag.bracketDepth? 0 (method.returns.getD "void".toList) = some 0
  source : Source.Unclosed method.tagSource
  closed : ∀ tag, method.tag? = some tag → tag.IsClosed

private theorem VirtualProperty.tagName_facts (property : VirtualProperty) :
    property.tagName ≠ [] ∧ (∀ c ∈ property.tagName, Tag.isNamePart c = true) ∧
      Tag.isPropertyName property.tagName = true := by
  unfold tagName
  split <;> exact ⟨by decide, Text.forall_of_all (by decide), rfl⟩

def commentTail (comment : Text) : Text :=
  if comment = [] then [] else ' ' :: comment

theorem joinWith_commentPart (pieces : List Text) (last comment : Text) :
    Text.joinWith [' '] (pieces ++ [last] ++ commentPart comment) =
      Text.joinWith [' '] (pieces ++ [last]) ++ commentTail comment := by
  unfold commentPart commentTail
  split
  · rw [List.append_nil, List.append_nil]
  · rw [Text.joinWith_append _ _ _ _ (List.append_ne_nil_of_right_ne_nil _ (List.cons_ne_nil _ _)),
      Text.joinWith_singleton, List.append_assoc, List.singleton_append]

private theorem commentTail_part (comment more : Text) (part : more <+: commentTail comment) :
    more = [] ∨ ∃ rest, more = ' ' :: rest := by
  unfold commentTail at part
  split at part
  · exact .inl (List.prefix_nil.mp part)
  · cases more with
    | nil => exact .inl rfl
    | cons c more =>
        rw [List.cons_prefix_cons] at part
        exact .inr ⟨more, by rw [part.1]⟩

theorem VirtualProperty.tagSource_eq (property : VirtualProperty) :
    property.tagSource = '@' :: (property.tagName ++ ' ' ::
      ((property.type.toList.flatMap (· ++ [' ']) ++ '$' :: property.name) ++ commentTail property.comment)) := by
  unfold tagSource
  rw [joinWith_commentPart]
  cases property.type with
  | none => simp
  | some type => simp

private theorem words_marked (word more : Text) (isWord : Text.IsWord word)
    (apart : more = [] ∨ ∃ rest, more = ' ' :: rest) :
    ∃ others, Text.words (word ++ more) = word :: others := by
  rcases apart with rfl | ⟨rest, rfl⟩
  · exact ⟨[], by rw [List.append_nil, Text.words_single word isWord]⟩
  · exact ⟨Text.words rest, Text.words_solid word isWord rest⟩

def VirtualProperty.typeWords (property : VirtualProperty) : List Text :=
  Text.words (property.type.getD [])

/-- The tag of a property describes the first variable in its type, and without one the property. -/
theorem VirtualProperty.kind_of_type (property : VirtualProperty) (ascii : Text.IsAsciiName property.name)
    (unbroken : ∀ type, property.type = some type → '\n' ∉ type) (tag : Tag) (made : property.tag? = some tag) :
    tag.name = property.tagName ∧
      tag.kind = .property ((property.typeWords.findSome? Tag.variableOf?).getD property.name) := by
  obtain ⟨named, parts, isName⟩ := property.tagName_facts
  have isWord : Text.IsWord ('$' :: property.name) := by
    refine ⟨List.cons_ne_nil _ _, fun c member => ?_⟩
    rcases List.mem_cons.mp member with rfl | inside
    · rfl
    · exact ascii.not_blank c inside
  rw [tag?, property.tagSource_eq] at made
  obtain ⟨name, more, part, line⟩ := Tag.parse_firstLine _ _ _ tag made named parts
    (by
      intro feed
      rcases List.mem_append.mp feed with inType | inName
      · cases known : property.type with
        | none => simp [known] at inType
        | some type => simp [known, unbroken type known] at inType
      · have solid := isWord.solid _ inName
        cases solid)
    (by simp) (Text.endsFirm_append _ _ (List.cons_ne_nil _ _) isWord.endsFirm)
  obtain ⟨others, here⟩ := words_marked _ more isWord (commentTail_part _ more part)
  have words : Text.words (property.type.toList.flatMap (· ++ [' ']) ++ '$' :: property.name ++ more) =
      property.typeWords ++ ('$' :: property.name) :: others := by
    unfold typeWords
    cases property.type with
    | none => exact here
    | some type =>
        have regroup : (some type).toList.flatMap (· ++ [' ']) ++ '$' :: property.name ++ more =
            type ++ ' ' :: ('$' :: property.name ++ more) := by simp
        rw [regroup, Text.words_split ' ' _ _ rfl, here]
        rfl
  refine ⟨name, ?_⟩
  unfold Tag.kind
  rw [name, if_pos isName, line, Text.splitOn_collapse _ (by rw [words]; simp), words, List.findSome?_append,
    List.findSome?_cons, Tag.variableOf_name _ ascii]
  cases property.typeWords.findSome? Tag.variableOf? <;> rfl

theorem VirtualProperty.IsPlain.kind_eq {property : VirtualProperty} (plain : property.IsPlain) (tag : Tag)
    (made : property.tag? = some tag) : tag.kind = .property property.name := by
  have bare : property.typeWords.findSome? Tag.variableOf? = none := by
    rw [List.findSome?_eq_none_iff]
    intro word member
    apply Tag.variableOf_eq_none
    intro sign
    have inType := ((Text.words_pieces _).1 word member).mem sign
    cases known : property.type with
    | none =>
        rw [known] at inType
        cases inType
    | some type =>
        rw [known] at inType
        exact (plain.type type known).1 inType
  have kind := (property.kind_of_type plain.name (fun type known => (plain.type type known).2) tag made).2
  rwa [bare] at kind

def VirtualMethod.lead (method : VirtualMethod) : Text :=
  (if method.isStatic then "static ".toList else []) ++ method.returns.getD "void".toList

theorem VirtualMethod.tagSource_eq (method : VirtualMethod) :
    method.tagSource = '@' :: ("method".toList ++ ' ' :: ((method.lead ++ ' ' :: (method.name ++ ['('])) ++
      (Argument.signatures method.arguments ++ ')' :: commentTail method.comment))) := by
  unfold tagSource lead
  rw [joinWith_commentPart]
  cases method.isStatic with
  | false => simp
  | true => simp

def VirtualMethod.returnType (method : VirtualMethod) : Text :=
  method.returns.getD "void".toList

private theorem VirtualMethod.words_lead (method : VirtualMethod) :
    Text.words method.lead = (if method.isStatic then ["static".toList] else []) ++ Text.words method.returnType := by
  unfold lead
  cases method.isStatic with
  | false => rfl
  | true =>
      have regroup : "static ".toList ++ method.returnType = "static".toList ++ ' ' :: method.returnType := rfl
      exact (congrArg Text.words regroup).trans
        (Text.words_solid _ ⟨by decide, Text.forall_of_all (by decide)⟩ method.returnType)

private theorem VirtualMethod.bracketDepth_lead (method : VirtualMethod) :
    Tag.bracketDepth? 0 method.lead = Tag.bracketDepth? 0 method.returnType := by
  unfold lead
  cases method.isStatic with
  | false => rfl
  -- No letter of `static` is a bracket.
  | true => rfl

theorem VirtualMethod.firstLine_eq (method : VirtualMethod) (ascii : Text.IsAsciiName method.name)
    (unbroken : '\n' ∉ method.returnType) (tag : Tag) (made : method.tag? = some tag) :
    tag.name = "method".toList ∧
      ∃ more, tag.firstLine = Text.collapse (method.lead ++ ' ' :: (method.name ++ '(' :: more)) := by
  have isWord := Text.isWord_parenthesis method.name ascii.not_blank
  have unbrokenLead : '\n' ∉ method.lead := by
    unfold lead
    cases method.isStatic with
    | false => exact unbroken
    | true =>
        intro feed
        rcases List.mem_append.mp feed with inStatic | inType
        · exact absurd inStatic (by decide)
        · exact unbroken inType
  rw [tag?, method.tagSource_eq] at made
  obtain ⟨name, more, _, line⟩ := Tag.parse_firstLine _ _ _ tag made (by decide) (Text.forall_of_all (by decide))
    (by
      intro feed
      rcases List.mem_append.mp feed with inLead | later
      · exact unbrokenLead inLead
      · rcases List.mem_cons.mp later with wrong | inName
        · cases wrong
        · have solid := isWord.solid _ inName
          cases solid)
    (by simp) (Text.endsFirm_append _ _ (List.cons_ne_nil _ _)
      (Text.endsFirm_append [' '] _ isWord.nonempty isWord.endsFirm))
  refine ⟨name, more, ?_⟩
  rw [line, List.append_assoc, List.cons_append, List.append_assoc, List.singleton_append]

/-- A return type that leaves all brackets and opens no parenthesis outside of them does not hide the name. -/
theorem VirtualMethod.kind_of_balanced (method : VirtualMethod) (ascii : Text.IsAsciiName method.name)
    (unbroken : '\n' ∉ method.returnType) (balanced : Tag.bracketDepth? 0 method.returnType = some 0) (tag : Tag)
    (made : method.tag? = some tag) :
    tag.kind = .method method.name
      (method.isStatic || (Text.words method.returnType).head? == some "static".toList) := by
  obtain ⟨isMethod, more, line⟩ := method.firstLine_eq ascii unbroken tag made
  have cut := Text.isCut_split method.lead ' ' method.name rfl ascii.not_blank
  have outside : Tag.bracketDepth? 0 (method.lead ++ ' ' :: method.name) = some 0 := by
    rw [Tag.bracketDepth_append, method.bracketDepth_lead, balanced, Option.bind_some, Tag.bracketDepth_blank 0 ' ' _ rfl,
      Tag.bracketDepth_name 0 _ ascii]
  obtain ⟨signature, settled, stem, whole, _⟩ := Tag.exists_signature cut outside more
  rw [List.append_assoc, List.cons_append, ← line] at whole
  have last : signature.lastWord? = some method.name := by
    obtain ⟨c, rest, known, _⟩ := ascii.cons
    have isWord : Text.IsWord method.name := ⟨by rw [known]; exact List.cons_ne_nil c rest, ascii.not_blank⟩
    rw [Tag.Signature.lastWord?, stem, Text.words_single _ isWord, List.getLast?_concat]
  have flag : signature.isStatic =
      (method.isStatic || (Text.words method.returnType).head? == some "static".toList) := by
    rw [Tag.Signature.isStatic, settled, method.words_lead]
    cases method.isStatic <;> rfl
  rw [tag.kind_of_signature signature isMethod whole.symm, last, flag, Tag.kindOfWord, if_pos ascii.1]

theorem VirtualMethod.IsPlain.kind_eq {method : VirtualMethod} (plain : method.IsPlain) (tag : Tag)
    (made : method.tag? = some tag) : ∃ isStatic, tag.kind = .method method.name isStatic :=
  ⟨_, method.kind_of_balanced plain.name plain.returns.1 plain.returns.2 tag made⟩

structure Registry.IsPlain (registry : Registry) : Prop where
  virtualProperties : ∀ property ∈ registry.virtualProperties, property.IsPlain
  virtualMethods : ∀ method ∈ registry.virtualMethods, method.IsPlain
  declaredProperties : ∀ property ∈ registry.declaredProperties, property.IsPlain
  declaredMethods : ∀ method ∈ registry.declaredMethods, method.IsPlain

theorem Registry.IsPlain.names {registry : Registry} (plain : registry.IsPlain) : ClassDoc.Names registry where
  properties property member tag made := (plain.virtualProperties property member).kind_eq tag made
  methods method member tag made := by
    obtain ⟨isStatic, kind⟩ := (plain.virtualMethods method member).kind_eq tag made
    exact ⟨method.name, isStatic, kind, by simp [Text.sameName]⟩

theorem Registry.IsPlain.closed_rendered {registry : Registry} (plain : registry.IsPlain) (snapshot : Snapshot)
    (tags : List Tag) : ∀ tag ∈ ClassDoc.rendered snapshot registry tags, tag.IsClosed := by
  intro tag member
  unfold ClassDoc.rendered at member
  rcases List.mem_append.mp member with inProperties | inMethods
  · obtain ⟨property, isOpen, made⟩ := List.mem_filterMap.mp inProperties
    exact (plain.virtualProperties property (List.mem_filter.mp isOpen).1).closed tag made
  · obtain ⟨method, isOpen, made⟩ := List.mem_filterMap.mp inMethods
    exact (plain.virtualMethods method (List.mem_filter.mp isOpen).1).closed tag made

end MemberDoc
