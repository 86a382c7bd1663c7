import MemberDoc.Proofs.ClassComment
import MemberDoc.Proofs.Reflection

set_option autoImplicit false

/-! The merged block of a class as a piece of source text. As long as no pending member closes a comment
by itself, the block is one doc comment wherever it is put into code: its end stands nowhere but at its
end, and the text around it is read as if it were not there. -/

namespace MemberDoc

open Source

structure Argument.IsUnclosed (argument : Argument) : Prop where
  name : Unclosed argument.name
  type : ∀ type, argument.type = some type → Unclosed type
  default : ∀ value, argument.default = some value → Unclosed value

structure VirtualProperty.IsUnclosed (property : VirtualProperty) : Prop where
  name : Unclosed property.name
  type : ∀ type, property.type = some type → Unclosed type
  comment : Unclosed property.comment

structure VirtualMethod.IsUnclosed (method : VirtualMethod) : Prop where
  name : Unclosed method.name
  arguments : ∀ argument ∈ method.arguments, argument.IsUnclosed
  returns : ∀ type, method.returns = some type → Unclosed type
  comment : Unclosed method.comment

structure Registry.IsUnclosed (registry : Registry) : Prop where
  virtualProperties : ∀ property ∈ registry.virtualProperties, property.IsUnclosed
  virtualMethods : ∀ method ∈ registry.virtualMethods, method.IsUnclosed

private theorem Argument.IsUnclosed.signature {argument : Argument} (unclosed : argument.IsUnclosed) :
    Unclosed argument.signature := by
  unfold Argument.signature
  refine Unclosed.append (Unclosed.append_divider ?_ ['$'] rfl unclosed.name) ?_ fun _ => ?_
  · cases known : argument.type with
    | none => exact unclosed_nil
    | some type => exact (unclosed.type type known).append_cons ' ' (by decide) (by decide) unclosed_nil
  · cases known : argument.default with
    | none => exact unclosed_nil
    | some value => exact unclosed_nil.append_divider [' ', '=', ' '] rfl (unclosed.default value known)
  · cases argument.default <;> simp

private theorem unclosed_signatures (arguments : List Argument) (all : ∀ argument ∈ arguments, argument.IsUnclosed) :
    Unclosed (Argument.signatures arguments) := by
  apply unclosed_joinWith [',', ' '] rfl
  intro piece member
  obtain ⟨argument, inside, rfl⟩ := List.mem_map.mp member
  exact (all argument inside).signature

theorem unclosed_of_mem_commentPart (comment : Text) (unclosed : Unclosed comment) :
    ∀ piece ∈ commentPart comment, Unclosed piece := by
  intro piece member
  unfold commentPart at member
  split at member
  · cases member
  · rw [List.mem_singleton.mp member]
    exact unclosed

private theorem VirtualProperty.IsUnclosed.tagSource {property : VirtualProperty} (unclosed : property.IsUnclosed) :
    Unclosed property.tagSource := by
  have tagName : Unclosed ('@' :: property.tagName) := by
    unfold VirtualProperty.tagName
    split <;> exact unclosed_of_not_mem _ (by decide)
  apply unclosed_joinWith [' '] rfl
  intro piece member
  simp only [List.mem_append, List.mem_singleton, Option.mem_toList] at member
  rcases member with ((rfl | isType) | rfl) | inComment
  · exact tagName
  · exact unclosed.type piece isType
  · exact unclosed_nil.append_cons '$' (by decide) (by decide) unclosed.name
  · exact unclosed_of_mem_commentPart _ unclosed.comment piece inComment

private theorem VirtualMethod.IsUnclosed.tagSource {method : VirtualMethod} (unclosed : method.IsUnclosed) :
    Unclosed method.tagSource := by
  have returns : Unclosed (method.returns.getD "void".toList) := by
    cases known : method.returns with
    | none => exact unclosed_of_not_mem _ (by decide)
    | some type => exact unclosed.returns type known
  have call : Unclosed (method.name ++ ['('] ++ Argument.signatures method.arguments ++ [')']) :=
    (unclosed.name.append_divider ['('] rfl (unclosed_signatures _ unclosed.arguments)).append_cons ')'
      (by decide) (by decide) unclosed_nil
  apply unclosed_joinWith [' '] rfl
  intro piece member
  simp only [List.mem_append, List.mem_singleton] at member
  rcases member with (((rfl | isStatic) | rfl) | rfl) | inComment
  · exact unclosed_of_not_mem _ (by decide)
  · split at isStatic
    · rw [List.mem_singleton.mp isStatic]
      exact unclosed_of_not_mem _ (by decide)
    · cases isStatic
  · exact returns
  · exact call
  · exact unclosed_of_mem_commentPart _ unclosed.comment piece inComment

theorem ClassMap.unclosed_of_reflect (classes : ClassMap) (tree : Tree) (className : Text) (snapshot : Snapshot)
    (reflected : classes.reflect tree className = .ok snapshot) :
    Unclosed snapshot.name ∧ ∀ text, snapshot.docComment = some text → IsComment text := by
  obtain ⟨path, source, site, names, _, _, located, _, rfl⟩ := (reflect_eq_ok_iff _ _ _ _).mp reflected
  constructor
  · have absent := not_mem_of_site _ _ _ located '*' (by decide) rfl rfl rfl
    rw [ClassName.qualified_qualified] at absent
    exact unclosed_of_not_mem _ absent
  · intro text known
    obtain ⟨comment, attached, rfl⟩ := Option.map_eq_some_iff.mp known
    exact (isComment_of_docComment _ _ _ located comment attached).1

/-- The end of a comment stands at its end only. -/
theorem Source.IsComment.tail_eq_nil {comment : Text} (isComment : IsComment comment) (lead tail : Text)
    (whole : comment = lead ++ ['*', '/'] ++ tail) : tail = [] := by
  obtain ⟨inner, rfl, unclosed⟩ := isComment
  -- Without its last character the comment is not closed.
  have opened : Unclosed (['/', '*'] ++ ('*' :: inner) ++ ['*']) := by
    have start : Unclosed ['/', '*'] := by decide
    have star : Unclosed ['*'] := by decide
    exact (start.append unclosed fun _ => by simp).append star fun _ => by simp
  rcases List.eq_nil_or_concat tail with rfl | ⟨rest, last, rfl⟩
  · rfl
  · have shorter : ['/', '*'] ++ ('*' :: inner) ++ ['*'] = lead ++ ['*', '/'] ++ rest := by
      have regroup : ['/', '*'] ++ ('*' :: inner ++ ['*', '/']) = (['/', '*'] ++ ('*' :: inner) ++ ['*']) ++ ['/'] := by
        simp
      rw [regroup, List.concat_eq_append, ← List.append_assoc] at whole
      exact (List.append_inj' whole rfl).1
    exact absurd ⟨lead, rest, shorter.symm⟩ opened

/-- A text that is one doc comment wherever it is put into code. A slash before it would open another
comment. -/
structure Source.StandsAlone (block : Text) : Prop where
  framed : ∃ inner, block = "/**\n".toList ++ inner ++ " */".toList
  closedOnce : ∀ lead tail, block = lead ++ "*/".toList ++ tail → tail = []
  masked : ∀ before after, ending .code before = .code → before.getLast? ≠ some '/' →
    mask .code (before ++ block ++ after) = mask .code before ++ hide block ++ mask .code after
  recorded : ∀ before after, ending .code before = .code → before.getLast? ≠ some '/' →
    docComments 0 .code (before ++ block ++ after) =
      docComments 0 .code before ++ [⟨Text.byteLength before, block⟩] ++
        (docComments 0 .code after).map (·.shift (Text.byteLength (before ++ block)))

private theorem Source.IsComment.standsAlone {block : Text} (isComment : IsComment block)
    (framed : ∃ inner, block = "/**\n".toList ++ inner ++ " */".toList) : StandsAlone block := by
  have lead (before after : Text) (ended : ending .code before = .code) (apart : before.getLast? ≠ some '/') :
      Reads .code before (block ++ after) (mask .code before) .code :=
    reads_of_ending before (block ++ after) ended fun slash => absurd slash apart
  refine ⟨framed, isComment.tail_eq_nil, fun before after ended apart => ?_, fun before after ended apart => ?_⟩
  · rw [List.append_assoc, (lead before after ended apart).mask_eq, (isComment.reads after).mask_eq,
      List.append_assoc]
  · have later := docComments_shift (Text.byteLength (before ++ block)) 0 .code True.intro after
    rw [Nat.add_zero, Text.byteLength_append] at later
    rw [List.append_assoc, (lead before after ended apart).docComments_append 0, isComment.docComments_append,
      Nat.zero_add, later, Text.byteLength_append, List.append_assoc, List.singleton_append]

/-- The merged block of a class that was reflected is one doc comment, whatever the options, if no pending
virtual member has the end of a comment in one of its texts. -/
theorem ClassDoc.text_standsAlone (classes : ClassMap) (tree : Tree) (className : Text) (snapshot : Snapshot)
    (registry : Registry) (options : Options) (reflected : classes.reflect tree className = .ok snapshot)
    (unclosed : registry.IsUnclosed) : StandsAlone (ClassDoc.text snapshot registry options) := by
  obtain ⟨name, comment⟩ := classes.unclosed_of_reflect tree className snapshot reflected
  have isComment : IsComment (ClassDoc.text snapshot registry options) :=
    isComment_text snapshot registry options name comment
      (fun property pending => (unclosed.virtualProperties property pending).tagSource)
      (fun method pending => (unclosed.virtualMethods method pending).tagSource)
  exact isComment.standsAlone ⟨_, rfl⟩

namespace ClassDoc

def menuComment : Text :=
  "/** Menu **\n * / *\n * @see* /\n */".toList

def menu : Snapshot where
  name := "\\Menu".toList
  instantiable := true
  properties := []
  methods := []
  docComment := some menuComment
  source := "<?php\n".toList ++ menuComment ++ "\nclass Menu \x7b\x7d".toList
  path := ⟨"/Menu.php".toList⟩

def menuTree : Tree :=
  ⟨[(["Menu.php".toList], .document (.text menu.source) true)]⟩

/-- Every text starts or ends with half of a comment's end. -/
def menuMembers : Registry where
  virtualProperties := [⟨"/x*".toList, some "/int *".toList, true, false, "/ a *\n/ b *".toList⟩]
  virtualMethods := [⟨"/go*".toList, true, [⟨"/n*".toList, some "/int*".toList, some "/ *".toList⟩],
    some "/void*".toList, "/".toList⟩]
  declaredProperties := []
  declaredMethods := []

private theorem isUnclosed_menuMembers : menuMembers.IsUnclosed where
  virtualProperties property member := by
    rw [List.mem_singleton.mp member]
    exact ⟨by decide +kernel, fun type known => Option.some.inj known ▸ by decide +kernel, by decide +kernel⟩
  virtualMethods method member := by
    rw [List.mem_singleton.mp member]
    refine ⟨by decide +kernel, fun argument inside => ?_, fun type known => Option.some.inj known ▸ by decide +kernel,
      by decide +kernel⟩
    rw [List.mem_singleton.mp inside]
    exact ⟨by decide +kernel, fun type known => Option.some.inj known ▸ by decide +kernel,
      fun value known => Option.some.inj known ▸ by decide +kernel⟩

theorem text_standsAlone_menu : StandsAlone (ClassDoc.text menu menuMembers ⟨false, true, false⟩) :=
  text_standsAlone (ClassMap.empty.insert "Menu".toList menu.path) menuTree "Menu".toList menu menuMembers
    ⟨false, true, false⟩ (eq_ok_of_toOption (by decide +kernel)) isUnclosed_menuMembers

end ClassDoc
end MemberDoc
