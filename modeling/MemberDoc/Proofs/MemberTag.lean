import MemberDoc.Member.Description
import MemberDoc.Proofs.TagText

set_option autoImplicit false

/-! Tags made for virtual members. -/

namespace MemberDoc

theorem joinWith_marked (separator : Text) (c : Char) (name : Text) (pieces : List Text) :
    ∃ rest, Text.joinWith separator (('@' :: c :: name) :: pieces) = '@' :: c :: rest := by
  cases pieces with
  | nil => exact ⟨name, Text.joinWith_singleton separator _⟩
  | cons next pieces =>
      rw [Text.joinWith_cons_cons, List.append_assoc]
      exact ⟨_, rfl⟩

theorem VirtualProperty.tagName_cons (property : VirtualProperty) : ∃ rest, property.tagName = 'p' :: rest := by
  unfold tagName
  split <;> exact ⟨_, rfl⟩

theorem VirtualProperty.tag_isSome (property : VirtualProperty) : ∃ tag, property.tag? = some tag := by
  obtain ⟨name, named⟩ := property.tagName_cons
  obtain ⟨rest, joined⟩ := joinWith_marked [' '] 'p' name
    (property.type.toList ++ ['$' :: property.name] ++ commentPart property.comment)
  unfold tag? tagSource
  rw [named, List.append_assoc, List.append_assoc, List.singleton_append, ← List.append_assoc, joined]
  exact Tag.parse_isSome 'p' rest rfl

theorem VirtualMethod.tag_isSome (method : VirtualMethod) : ∃ tag, method.tag? = some tag := by
  unfold tag? tagSource
  rw [List.append_assoc, List.append_assoc, List.append_assoc, List.singleton_append]
  obtain ⟨rest, joined⟩ := joinWith_marked [' '] 'm' "ethod".toList
    ((if method.isStatic then ["static".toList] else []) ++ ([method.returns.getD "void".toList] ++
      ([method.name ++ ['('] ++ Argument.signatures method.arguments ++ [')']] ++
        commentPart method.comment)))
  rw [show "@method".toList = '@' :: 'm' :: "ethod".toList from rfl, joined]
  exact Tag.parse_isSome 'm' rest rfl

end MemberDoc
