import MemberDoc.Text.Basic

set_option autoImplicit false

/-! Pieces of a text: where a piece first or last stands, and places counted in bytes. -/

namespace MemberDoc.Text

theorem forall_of_all {text : Text} {property : Char → Prop} [DecidablePred property]
    (all : text.all (fun c => decide (property c)) = true) : ∀ c ∈ text, property c :=
  fun c member => of_decide_eq_true (List.all_eq_true.mp all c member)

theorem after_eq_some_iff (piece text rest : Text) : after? piece text = some rest ↔ text = piece ++ rest := by
  induction piece generalizing text with
  | nil =>
      rw [after?, Option.some.injEq]
      exact Iff.rfl
  | cons expected piece ih =>
      cases text with
      | nil => simp [after?]
      | cons c text =>
          by_cases same : c = expected
          · simp [after?, same, ih]
          · simp [after?, same]

theorem splitFirst_append (piece text lead tail : Text) (found : splitFirst? piece text = some (lead, tail)) :
    text = lead ++ piece ++ tail := by
  induction text generalizing lead with
  | nil =>
      rw [splitFirst?] at found
      split at found
      · rename_i empty
        cases found
        rw [empty]
        rfl
      · cases found
  | cons c rest ih =>
      rw [splitFirst?] at found
      split at found
      · rename_i behind here
        cases found
        exact (after_eq_some_iff piece _ _).mp here
      · cases later : splitFirst? piece rest with
        | none =>
            rw [later] at found
            cases found
        | some parts =>
            rw [later] at found
            cases found
            rw [ih parts.1 later]
            rfl

theorem splitFirst_first (piece text lead tail : Text) (found : splitFirst? piece text = some (lead, tail))
    (before rest : Text) (other : text = before ++ piece ++ rest) : lead.length ≤ before.length := by
  induction text generalizing lead before with
  | nil =>
      rw [splitFirst?] at found
      split at found
      · cases found
        exact Nat.zero_le _
      · cases found
  | cons c text ih =>
      rw [splitFirst?] at found
      split at found
      · cases found
        exact Nat.zero_le _
      · rename_i notHere
        cases later : splitFirst? piece text with
        | none =>
            rw [later] at found
            cases found
        | some parts =>
            rw [later] at found
            cases found
            cases before with
            | nil =>
                rw [List.nil_append] at other
                rw [(after_eq_some_iff piece _ rest).mpr other] at notHere
                cases notHere
            | cons d before =>
                have inner : text = before ++ piece ++ rest := (List.cons.inj other).2
                have bound := ih parts.1 later before inner
                simp only [List.length_cons]
                omega

theorem splitFirst_isSome (piece lead tail : Text) : ∃ parts, splitFirst? piece (lead ++ piece ++ tail) = some parts := by
  induction lead with
  | nil =>
      have here := (after_eq_some_iff piece (piece ++ tail) tail).mpr rfl
      rw [List.nil_append]
      cases whole : piece ++ tail with
      | nil =>
          rw [splitFirst?, if_pos (List.append_eq_nil_iff.mp whole).1]
          exact ⟨_, rfl⟩
      | cons c rest =>
          rw [whole] at here
          rw [splitFirst?, here]
          exact ⟨_, rfl⟩
  | cons c lead ih =>
      obtain ⟨parts, found⟩ := ih
      rw [List.cons_append, List.cons_append, splitFirst?]
      split
      · exact ⟨_, rfl⟩
      · rw [found]
        exact ⟨_, rfl⟩

theorem splitFirst_absent (piece text : Text) (absent : ¬ piece <:+: text) : splitFirst? piece text = none := by
  cases found : splitFirst? piece text with
  | none => rfl
  | some parts => exact absurd ⟨parts.1, parts.2, (splitFirst_append piece text _ _ found).symm⟩ absent

/-- No occurrence of a piece starts earlier than the one behind the lead. -/
def IsFirst (piece text lead : Text) : Prop :=
  ∀ before behind, text = before ++ piece ++ behind → lead.length ≤ before.length

theorem splitFirst_eq_some_iff (piece lead tail : Text) :
    splitFirst? piece (lead ++ piece ++ tail) = some (lead, tail) ↔ IsFirst piece (lead ++ piece ++ tail) lead := by
  constructor
  · exact splitFirst_first piece _ lead tail
  · intro isFirst
    obtain ⟨⟨before, behind⟩, found⟩ := splitFirst_isSome piece lead tail
    have whole := splitFirst_append piece _ before behind found
    have early := splitFirst_first piece _ before behind found lead tail rfl
    have late := isFirst before behind whole
    rw [List.append_assoc, List.append_assoc] at whole
    obtain ⟨rfl, rest⟩ := List.append_inj whole (by omega)
    rw [found, List.append_cancel_left rest]

/-- Two places take every text in the same way only if they are one place. -/
theorem eq_of_fill (lead before : Text) (tail behind : Text) (early : before.length ≤ lead.length)
    (same : ∀ filling : Text, before ++ (filling ++ behind) = lead ++ (filling ++ tail)) : before = lead := by
  rcases List.append_eq_append_iff.mp (same []) with ⟨rest, longer, _⟩ | ⟨rest, shorter, _⟩
  · cases rest with
    | nil => rw [longer, List.append_nil]
    | cons c rest =>
        -- A filling that starts with another character than the lead goes on with tells the places apart.
        have filled := same [if c = 'a' then 'b' else 'a']
        rw [longer, List.append_assoc] at filled
        have first := (List.cons.inj (List.append_cancel_left filled)).1
        split at first
        · rename_i letter
          rw [letter] at first
          cases first
        · exact absurd first.symm (by assumption)
  · have size := congrArg List.length shorter
    rw [List.length_append] at size
    have empty : rest = [] := List.eq_nil_of_length_eq_zero (by omega)
    rw [shorter, empty, List.append_nil]

/-- Texts go where a piece is found first; they all go behind the lead exactly if the piece is first there. -/
theorem fill_eq_iff (piece seam lead tail before behind : Text)
    (found : splitFirst? piece (lead ++ piece ++ tail) = some (before, behind)) :
    (∀ filling, before ++ (filling ++ (seam ++ behind)) = lead ++ (filling ++ (seam ++ tail))) ↔
      IsFirst piece (lead ++ piece ++ tail) lead := by
  rw [← splitFirst_eq_some_iff, found]
  constructor
  · intro same
    have early := splitFirst_first piece _ before behind found lead tail rfl
    have front := eq_of_fill lead before (seam ++ tail) (seam ++ behind) early same
    have rest := same []
    rw [front] at rest
    rw [front, List.append_cancel_left (List.append_cancel_left (List.append_cancel_left rest))]
  · intro same filling
    cases same
    rfl

theorem splitFirst_char (mark : Char) (lead tail : Text) :
    splitFirst? [mark] (lead ++ mark :: tail) = some (lead, tail) ↔ mark ∉ lead := by
  constructor
  · intro found member
    obtain ⟨before, rest, place⟩ := List.append_of_mem member
    have bound := splitFirst_first [mark] _ lead tail found before (rest ++ mark :: tail) (by rw [place]; simp)
    rw [place, List.length_append, List.length_cons] at bound
    omega
  · intro absent
    induction lead with
    | nil => simp [splitFirst?, after?]
    | cons c lead ih =>
        have notHere : c ≠ mark := fun same => absent (by rw [same]; exact List.mem_cons_self)
        rw [List.cons_append, splitFirst?, ih fun member => absent (List.mem_cons_of_mem c member)]
        simp [after?, notHere]

/-- A mark that stands neither in a text nor in another is found again when the one becomes the other. -/
theorem splitFirst_exchange (mark : Char) (lead text other tail head rest : Text) (notText : mark ∉ text)
    (notOther : mark ∉ other) (found : splitFirst? [mark] (lead ++ (text ++ tail)) = some (head, rest)) :
    (∃ inner, lead = head ++ mark :: inner ∧ rest = inner ++ (text ++ tail) ∧
      splitFirst? [mark] (lead ++ (other ++ tail)) = some (head, inner ++ (other ++ tail))) ∨
    ∃ newHead, splitFirst? [mark] (lead ++ (other ++ tail)) = some (newHead, rest) := by
  by_cases inside : mark ∈ lead
  · obtain ⟨front, inner, rfl, absent⟩ := List.eq_append_cons_of_mem inside
    have split (more : Text) : splitFirst? [mark] (front ++ mark :: inner ++ more) = some (front, inner ++ more) := by
      rw [List.append_assoc]
      exact (splitFirst_char mark front (inner ++ more)).mpr absent
    rw [split] at found
    cases found
    exact .inl ⟨inner, rfl, rfl, split _⟩
  · have whole := splitFirst_append _ _ _ _ found
    have present : mark ∈ tail := by
      have member : mark ∈ lead ++ (text ++ tail) := by
        rw [whole]
        simp
      simpa [inside, notText] using member
    obtain ⟨front, inner, rfl, absent⟩ := List.eq_append_cons_of_mem present
    have split (middle : Text) (free : mark ∉ middle) :
        splitFirst? [mark] (lead ++ (middle ++ (front ++ mark :: inner))) = some (lead ++ middle ++ front, inner) := by
      rw [← List.append_assoc, ← List.append_assoc]
      refine (splitFirst_char mark _ inner).mpr ?_
      simp [inside, free, absent]
    rw [split text notText] at found
    cases found
    exact .inr ⟨_, split other notOther⟩

theorem contains_iff (piece text : Text) : contains piece text = true ↔ ∃ lead tail, text = lead ++ piece ++ tail := by
  unfold contains
  rw [Option.isSome_iff_exists]
  constructor
  · rintro ⟨⟨lead, tail⟩, found⟩
    exact ⟨lead, tail, splitFirst_append piece text lead tail found⟩
  · rintro ⟨lead, tail, rfl⟩
    exact splitFirst_isSome piece lead tail

/-- A piece does not reach over a character that it lacks. -/
theorem contains_apart (piece left right : Text) (mark : Char) (absent : mark ∉ piece)
    (found : contains piece (left ++ mark :: right) = true) :
    contains piece left = true ∨ contains piece right = true := by
  obtain ⟨lead, tail, whole⟩ := (contains_iff _ _).mp found
  rcases List.append_eq_append_iff.mp whole with ⟨middle, longer, rest⟩ | ⟨middle, longer, _⟩
  · cases middle with
    | nil => exact .inl ((contains_iff _ _).mpr ⟨lead, [], by rw [List.append_nil] at longer ⊢; exact longer.symm⟩)
    | cons c middle =>
        obtain ⟨rfl, behind⟩ := List.cons.inj rest
        rcases List.append_eq_append_iff.mp longer with ⟨inner, _, place⟩ | ⟨inner, _, place⟩
        · exact absurd (place ▸ List.mem_append_right inner List.mem_cons_self) absent
        · cases inner with
          | nil =>
              rw [List.nil_append] at place
              exact absurd (place ▸ List.mem_cons_self) absent
          | cons d inner =>
              obtain ⟨_, inside⟩ := List.cons.inj place
              exact .inr ((contains_iff _ _).mpr ⟨inner, tail, by rw [behind, inside]; rfl⟩)
  · exact .inl ((contains_iff _ _).mpr ⟨lead, middle, longer⟩)

@[simp] theorem replaceFirst_self (piece text : Text) : replaceFirst piece piece text = text := by
  unfold replaceFirst
  split
  · rename_i lead tail found
    exact (splitFirst_append piece text lead tail found).symm
  · rfl

theorem splitLast_of_not_mem (mark : Char) (text : Text) (absent : mark ∉ text) : splitLast? mark text = none := by
  induction text with
  | nil => rfl
  | cons c rest ih =>
      have notHere : c ≠ mark := fun same => absent (by rw [same]; exact List.mem_cons_self)
      rw [splitLast?, ih fun member => absent (List.mem_cons_of_mem c member)]
      exact if_neg notHere

theorem splitLast_eq_none (mark : Char) (text : Text) (absent : splitLast? mark text = none) : mark ∉ text := by
  induction text with
  | nil => exact List.not_mem_nil
  | cons c text ih =>
      rw [splitLast?] at absent
      cases later : splitLast? mark text with
      | some parts => simp [later] at absent
      | none =>
          rw [later] at absent
          intro member
          rcases List.mem_cons.mp member with rfl | inside
          · simp at absent
          · exact ih later inside

theorem splitLast_of_last (mark : Char) (lead tail : Text) (last : mark ∉ tail) :
    splitLast? mark (lead ++ mark :: tail) = some (lead, tail) := by
  induction lead with
  | nil =>
      rw [List.nil_append, splitLast?, splitLast_of_not_mem mark tail last]
      exact if_pos rfl
  | cons c lead ih => rw [List.cons_append, splitLast?, ih]

theorem splitLast_append (mark : Char) (text lead tail : Text)
    (found : splitLast? mark text = some (lead, tail)) : text = lead ++ mark :: tail ∧ mark ∉ tail := by
  by_cases present : mark ∈ text
  · obtain ⟨before, behind, place, last⟩ : ∃ before behind, text = before ++ mark :: behind ∧ mark ∉ behind := by
      clear found
      induction text with
      | nil => cases present
      | cons c rest ih =>
          by_cases later : mark ∈ rest
          · obtain ⟨before, behind, place, last⟩ := ih later
            exact ⟨c :: before, behind, by rw [place]; rfl, last⟩
          · have here := (List.mem_cons.mp present).resolve_right later
            exact ⟨[], rest, by rw [here]; rfl, later⟩
    rw [place, splitLast_of_last mark before behind last] at found
    cases found
    exact ⟨place, last⟩
  · rw [splitLast_of_not_mem mark text present] at found
    cases found

@[simp, grind =] theorem byteLength_append (left right : Text) :
    byteLength (left ++ right) = byteLength left + byteLength right := by
  induction left with
  | nil =>
      rw [List.nil_append, byteLength]
      omega
  | cons c left ih =>
      rw [List.cons_append, byteLength, byteLength, ih]
      omega

theorem byteLength_pos (c : Char) (rest : Text) : 0 < byteLength (c :: rest) := by
  have size := c.utf8Size_pos
  rw [byteLength]
  omega

@[simp, grind =] theorem dropBytes_append (left right : Text) :
    dropBytes (byteLength left) (left ++ right) = right := by
  induction left with
  | nil => cases right <;> rfl
  | cons c left ih =>
      have size := c.utf8Size_pos
      rw [byteLength, List.cons_append]
      obtain ⟨count, positive⟩ : ∃ count, c.utf8Size + byteLength left = count + 1 :=
        ⟨c.utf8Size + byteLength left - 1, by omega⟩
      have remaining : count + 1 - c.utf8Size = byteLength left := by omega
      rw [positive, dropBytes, remaining, ih]

/-- Two cuts of one text after equally many bytes are the same cut. -/
theorem append_inj_of_byteLength (left right left' right' : Text) (same : left ++ right = left' ++ right')
    (size : byteLength left = byteLength left') : left = left' ∧ right = right' := by
  have rights : right = right' := by
    rw [← dropBytes_append left right, same, size, dropBytes_append]
  subst rights
  exact ⟨List.append_cancel_right same, rfl⟩

/-- Of two cuts of one text, the one after fewer bytes is the one after fewer characters. -/
theorem byteLength_lt_iff (left right left' right' : Text) (same : left ++ right = left' ++ right') :
    byteLength left < byteLength left' ↔ left.length < left'.length := by
  rcases List.append_eq_append_iff.mp same with ⟨rest, rfl, _⟩ | ⟨rest, rfl, _⟩
  · cases rest with
    | nil => simp
    | cons c rest =>
        have positive := byteLength_pos c rest
        grind
  · grind

end MemberDoc.Text
