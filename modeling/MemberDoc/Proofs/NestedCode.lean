import MemberDoc.Proofs.ClassBody

set_option autoImplicit false

/-! Code inside braces declares no member of the class around it. Together with its braces it ends a statement, as a
semicolon does, and nothing else is left of it. -/

namespace MemberDoc.Source

/-- No part at the start of a text closes more braces than it opens, and the whole text closes all of them. -/
structure IsBalanced (text : Text) : Prop where
  parts : ∀ part, part <+: text → part.count '\x7d' ≤ part.count '\x7b'
  whole : text.count '\x7d' = text.count '\x7b'

theorem braceDepth_eq_some_iff (depth inner : Nat) (text : Text) :
    braceDepth? depth text = some inner ↔
      (∀ part, part <+: text → part.count '\x7d' ≤ depth + part.count '\x7b') ∧
        inner + text.count '\x7d' = depth + text.count '\x7b' := by
  induction text generalizing depth with
  | nil =>
      rw [braceDepth?, Option.some.injEq]
      constructor
      · rintro rfl
        exact ⟨fun part starts => by simp [List.prefix_nil.mp starts], rfl⟩
      · rintro ⟨_, same⟩
        exact same.symm
  | cons c text ih =>
      rw [braceDepth_cons, forall_start_cons]
      by_cases opening : c = '\x7b'
      · rw [if_pos opening, ih, opening]
        simp only [List.count_cons_self, List.count_cons_of_ne (show '\x7b' ≠ '\x7d' by decide), List.count_nil,
          Nat.zero_le, true_and, Nat.add_right_comm depth 1, Nat.add_assoc]
      · rw [if_neg opening]
        by_cases closing : c = '\x7d'
        · rw [if_pos closing, closing]
          simp only [List.count_cons_self, List.count_cons_of_ne (show '\x7d' ≠ '\x7b' by decide), List.count_nil,
            Nat.zero_le, true_and]
          cases depth with
          | zero =>
              -- The brace alone is a part that closes more than is open.
              rw [if_pos rfl]
              refine iff_of_false (Option.some_ne_none inner ∘ Eq.symm) fun ⟨parts, _⟩ => ?_
              have first := parts [] List.nil_prefix
              simp at first
          | succ outer =>
              rw [if_neg (Nat.succ_ne_zero outer), Nat.add_sub_cancel, ih]
              refine and_congr (forall_congr' fun part => imp_congr_right fun _ => ?_) ?_ <;> omega
        · rw [if_neg closing, ih]
          simp only [List.count_cons_of_ne opening, List.count_cons_of_ne closing, List.count_nil, Nat.zero_le,
            true_and]

theorem isBalanced_iff (text : Text) : IsBalanced text ↔ braceDepth? 0 text = some 0 := by
  rw [braceDepth_eq_some_iff]
  simp only [Nat.zero_add]
  exact ⟨fun balanced => ⟨balanced.parts, balanced.whole⟩, fun ⟨parts, whole⟩ => ⟨parts, whole⟩⟩

instance (text : Text) : Decidable (IsBalanced text) :=
  decidable_of_iff (braceDepth? 0 text = some 0) (isBalanced_iff text).symm

structure MemberNames.AreDistinct (names : MemberNames) : Prop where
  properties : names.properties.Nodup
  methods : names.methods.Nodup

private theorem nodup_foldl_pushNew (names new : List Text) (distinct : names.Nodup) :
    (new.foldl Text.pushNew names).Nodup := by
  induction new generalizing names with
  | nil => exact distinct
  | cons name new ih =>
      apply ih
      unfold Text.pushNew
      split
      · exact distinct
      · rename_i absent
        rw [List.contains_iff_mem] at absent
        refine List.nodup_append.mpr ⟨distinct, List.nodup_cons.mpr ⟨List.not_mem_nil, List.nodup_nil⟩, ?_⟩
        intro known inside other single
        rw [List.mem_singleton.mp single]
        rintro rfl
        exact absent inside

theorem MemberNames.AreDistinct.merge {names : MemberNames} (distinct : names.AreDistinct) (more : MemberNames) :
    (names.merge more).AreDistinct :=
  ⟨nodup_foldl_pushNew _ _ distinct.properties, nodup_foldl_pushNew _ _ distinct.methods⟩

theorem areDistinct_memberNames (body : Text) : (memberNames body).AreDistinct := by
  have start : (MemberNames.mk [] []).AreDistinct := ⟨List.nodup_nil, List.nodup_nil⟩
  rw [← merge_memberNames]
  exact start.merge _

private theorem statements_nested (lead code rest : Text) (balanced : IsBalanced lead) (nested : IsBalanced code) :
    statements 0 (lead ++ '\x7b' :: (code ++ '\x7d' :: rest)) = statements 0 (lead ++ ';' :: rest) := by
  have braced : statements 0 ('\x7b' :: (code ++ '\x7d' :: rest)) = [] :: statements 0 rest := by
    rw [statements, if_pos rfl, statements_inside 0 0 code _ ((isBalanced_iff code).mp nested)]
    rfl
  obtain ⟨before, last, _, joined⟩ := statements_append 0 0 lead ((isBalanced_iff lead).mp balanced)
  rw [joined _ _ _ braced, joined (';' :: rest) [] (statements 0 rest) rfl]

/-- Braces around balanced code count as a semicolon. -/
theorem memberNames_nested (lead code rest : Text) (balanced : IsBalanced lead) (nested : IsBalanced code) :
    memberNames (lead ++ '\x7b' :: (code ++ '\x7d' :: rest)) = memberNames (lead ++ ';' :: rest) := by
  unfold memberNames
  rw [statements_nested lead code rest balanced nested]

/-- What stands inside braces does not change the members of a body, and each of these is listed once. -/
theorem members_apart_from_nested (lead code other rest : Text) (balanced : IsBalanced lead) (nested : IsBalanced code)
    (otherNested : IsBalanced other) :
    memberNames (lead ++ '\x7b' :: (code ++ '\x7d' :: rest)) =
        memberNames (lead ++ '\x7b' :: (other ++ '\x7d' :: rest)) ∧
      (memberNames (lead ++ '\x7b' :: (code ++ '\x7d' :: rest))).AreDistinct := by
  refine ⟨?_, areDistinct_memberNames _⟩
  rw [memberNames_nested lead code rest balanced nested, memberNames_nested lead other rest balanced otherNested]

def counterLead : Text :=
  "var $count; function reset() \x7b if (1) \x7b\x7d \x7d function step($by) ".toList

def counterCode : Text :=
  " static $calls; $f = function () \x7b\x7d; new class \x7b public $x; function go() \x7b\x7d \x7d; ".toList

def counterRest : Text :=
  " private $limit, $count; function STEP();".toList

theorem members_apart_from_nested_counter :
    IsBalanced counterLead ∧ IsBalanced counterCode ∧ IsBalanced [] ∧
      memberNames (counterLead ++ '\x7b' :: (counterCode ++ '\x7d' :: counterRest)) =
        memberNames (counterLead ++ '\x7b' :: ([] ++ '\x7d' :: counterRest)) ∧
      (memberNames (counterLead ++ '\x7b' :: (counterCode ++ '\x7d' :: counterRest))).AreDistinct := by
  have balanced : IsBalanced counterLead := by decide +kernel
  have nested : IsBalanced counterCode := by decide +kernel
  have otherNested : IsBalanced [] := by decide +kernel
  exact ⟨balanced, nested, otherNested,
    members_apart_from_nested counterLead counterCode [] counterRest balanced nested otherNested⟩

end MemberDoc.Source
