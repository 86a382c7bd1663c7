import MemberDoc.Proofs.Lexemes
import MemberDoc.Source.Outline

set_option autoImplicit false

/-! Attributes in a mask. An attribute reaches from `#[` to the bracket that balances its own one, whatever brackets
stand between. Both readers of attributes count brackets in the same way, so that one law says where they go on. -/

namespace MemberDoc.Source

/-- So many open brackets are closed at the end of a text and not before. -/
structure ClosesBrackets (depth : Nat) (text : Text) : Prop where
  whole : text.count ']' = depth + text.count '['
  parts : ∀ part, part <+: text → part ≠ text → part.count ']' < depth + part.count '['

/-- A number sign and a bracket, up to the bracket that balances it first. -/
def IsAttribute (text : Text) : Prop :=
  ∃ body, text = '#' :: '[' :: body ∧ ClosesBrackets 1 body

/-- A text behind another one that falls into pieces of one kind. Whether a text is such a piece may depend on what
stands before it and behind it. -/
inductive IsSequence (isPiece : Text → Text → Text → Prop) : Text → Text → Prop where
  | nil (before : Text) : IsSequence isPiece before []
  | next (before piece behind : Text) (here : isPiece before piece behind)
      (later : IsSequence isPiece (before ++ piece) behind) : IsSequence isPiece before (piece ++ behind)

def IsSpacing (piece : Text) : Prop :=
  (∃ c, piece = [c] ∧ Text.isBlank c = true) ∨ IsAttribute piece

@[simp] theorem closesBrackets_zero (text : Text) : ClosesBrackets 0 text ↔ text = [] := by
  constructor
  · intro closes
    by_cases empty : text = []
    · exact empty
    · have start := closes.parts [] List.nil_prefix (Ne.symm empty)
      simp at start
  · rintro rfl
    exact ⟨rfl, fun part starts other => absurd (List.prefix_nil.mp starts) other⟩

theorem closesBrackets_cons (depth inner : Nat) (c : Char) (rest : Text)
    (change : depth + 1 + [c].count '[' = inner + [c].count ']') :
    ClosesBrackets (depth + 1) (c :: rest) ↔ ClosesBrackets inner rest := by
  have split (mark : Char) (part : Text) : (c :: part).count mark = [c].count mark + part.count mark := by
    rw [← List.singleton_append, List.count_append]
  constructor
  · rintro ⟨whole, parts⟩
    rw [split ']' rest, split '[' rest] at whole
    refine ⟨by omega, fun part starts other => ?_⟩
    have bound := parts (c :: part) (List.cons_prefix_cons.mpr ⟨rfl, starts⟩) (by simpa using other)
    rw [split ']' part, split '[' part] at bound
    omega
  · rintro ⟨whole, parts⟩
    refine ⟨by rw [split ']' rest, split '[' rest]; omega, ?_⟩
    rw [forall_start_cons fun part => part ≠ c :: rest → part.count ']' < depth + 1 + part.count '[']
    refine ⟨fun _ => Nat.succ_pos _, fun part starts other => ?_⟩
    have bound := parts part starts (by simpa using other)
    rw [split ']' part, split '[' part]
    omega

def afterBrackets? : Nat → Text → Option Text
  | 0, text => some text
  | _ + 1, [] => none
  | depth + 1, c :: rest =>
      afterBrackets? (if c = '[' then depth + 2 else if c = ']' then depth else depth + 1) rest

theorem afterBrackets_eq_some_iff (depth : Nat) (text behind : Text) :
    afterBrackets? depth text = some behind ↔ ∃ body, text = body ++ behind ∧ ClosesBrackets depth body := by
  have outside (text : Text) : afterBrackets? 0 text = some behind ↔
      ∃ body, text = body ++ behind ∧ ClosesBrackets 0 body := by
    simp only [afterBrackets?, Option.some.injEq, closesBrackets_zero]
    exact ⟨fun same => ⟨[], same, rfl⟩, fun ⟨body, whole, empty⟩ => by rw [whole, empty]; rfl⟩
  induction text generalizing depth with
  | nil =>
      cases depth with
      | zero => exact outside []
      | succ depth =>
          refine iff_of_false (fun found => by cases found) ?_
          rintro ⟨body, whole, closes⟩
          have count := closes.whole
          rw [(List.append_eq_nil_iff.mp whole.symm).1] at count
          simp at count
  | cons c text ih =>
      cases depth with
      | zero => exact outside (c :: text)
      | succ depth =>
          have change : depth + 1 + [c].count '[' =
              (if c = '[' then depth + 2 else if c = ']' then depth else depth + 1) + [c].count ']' := by
            by_cases opening : c = '['
            · subst opening
              rfl
            · by_cases closing : c = ']'
              · subst closing
                rfl
              · rw [if_neg opening, if_neg closing, List.count_eq_zero.mpr (by simpa using Ne.symm opening),
                  List.count_eq_zero.mpr (by simpa using Ne.symm closing)]
          refine (ih _).trans ⟨?_, ?_⟩
          · rintro ⟨body, rfl, closes⟩
            exact ⟨c :: body, rfl, (closesBrackets_cons depth _ c body change).mpr closes⟩
          · rintro ⟨body, whole, closes⟩
            cases body with
            | nil =>
                have count := closes.whole
                simp at count
            | cons d body =>
                obtain ⟨rfl, rfl⟩ := List.cons.inj whole
                exact ⟨body, rfl, (closesBrackets_cons depth _ c body change).mp closes⟩

theorem afterBrackets_one_iff (body behind : Text) :
    afterBrackets? 1 body = some behind ↔ ∃ piece, '#' :: '[' :: body = piece ++ behind ∧ IsAttribute piece := by
  rw [afterBrackets_eq_some_iff]
  constructor
  · rintro ⟨inner, rfl, closes⟩
    exact ⟨'#' :: '[' :: inner, rfl, inner, rfl, closes⟩
  · rintro ⟨_, whole, inner, rfl, closes⟩
    exact ⟨inner, (List.cons.inj (List.cons.inj whole).2).2, closes⟩

theorem afterBrackets_one_eq_none_iff (body : Text) :
    afterBrackets? 1 body = none ↔ ∀ piece, piece <+: '#' :: '[' :: body → ¬ IsAttribute piece := by
  rw [Option.eq_none_iff_forall_ne_some]
  constructor
  · rintro unclosed piece ⟨behind, whole⟩ isAttribute
    exact unclosed behind ((afterBrackets_one_iff body behind).mpr ⟨piece, whole.symm, isAttribute⟩)
  · intro unclosed behind closed
    obtain ⟨piece, whole, isAttribute⟩ := (afterBrackets_one_iff body behind).mp closed
    exact unclosed piece ⟨behind, whole.symm⟩ isAttribute

theorem IsAttribute.getLast {piece : Text} (isAttribute : IsAttribute piece) : piece.getLast? = some ']' := by
  obtain ⟨body, rfl, closes⟩ := isAttribute
  rcases List.eq_nil_or_concat body with rfl | ⟨inner, last, rfl⟩
  · have count := closes.whole
    simp at count
  · rw [List.concat_eq_append] at closes ⊢
    have balance := closes.whole
    have bound := closes.parts inner (List.prefix_append inner [last]) (by simp)
    rw [List.count_append, List.count_append] at balance
    by_cases closing : last = ']'
    · rw [closing, ← List.cons_append, ← List.cons_append, List.getLast?_concat]
    · rw [List.count_eq_zero.mpr (show ']' ∉ [last] by simpa using Ne.symm closing)] at balance
      omega

/-- A reader that counts brackets goes on behind the bracket that closes the last one, whatever it does there. -/
theorem afterBrackets_walk (depth : Nat) (text : Text) {Result : Type} (walk : Nat → Text → Result)
    (missing : Result) (next : Text → Result) (unclosed : ∀ depth, walk depth [] = missing)
    (step : ∀ depth c rest, walk (depth + 1) (c :: rest) =
      if c = '[' then walk (depth + 2) rest
      else if c = ']' then if depth = 0 then next rest else walk depth rest else walk (depth + 1) rest) :
    walk (depth + 1) text = ((afterBrackets? (depth + 1) text).map next).getD missing := by
  induction text generalizing depth with
  | nil => exact unclosed _
  | cons c text ih =>
      rw [step, afterBrackets?]
      by_cases opening : c = '['
      · rw [if_pos opening, if_pos opening, ih]
      · rw [if_neg opening, if_neg opening]
        by_cases closing : c = ']'
        · rw [if_pos closing, if_pos closing]
          cases depth with
          | zero => rw [if_pos rfl, afterBrackets?, Option.map_some, Option.getD_some]
          | succ outer => rw [if_neg (Nat.succ_ne_zero outer), ih]
        · rw [if_neg closing, if_neg closing, ih]

theorem isTransparent_attribute (depth : Nat) (text : Text) :
    isTransparent (.attribute (depth + 1)) text =
      ((afterBrackets? (depth + 1) text).map (isTransparent (.letters 0))).getD false := by
  refine afterBrackets_walk depth text (fun depth => isTransparent (.attribute depth)) false _ (fun _ => rfl) ?_
  intro depth c rest
  cases depth with
  | zero => rfl
  | succ outer => rw [isTransparent, if_neg (by omega : ¬ outer + 1 + 1 ≤ 1)]; rfl

private theorem stripAttributes_attribute (start : Text) (depth : Nat) (text : Text) :
    stripAttributes (some ⟨start, depth + 1⟩) text =
      ((afterBrackets? (depth + 1) text).map (stripAttributes none)).getD start := by
  refine afterBrackets_walk depth text (fun depth => stripAttributes (some ⟨start, depth⟩)) start _ (fun _ => rfl) ?_
  intro depth c rest
  cases depth with
  | zero => rfl
  | succ outer => rw [stripAttributes, if_neg (by omega : ¬ outer + 1 + 1 ≤ 1)]; rfl

structure IsBare (text : Text) : Prop where
  solid : ∀ c, text.head? = some c → Text.isBlank c = false
  plain : ∀ piece, piece <+: text → ¬ IsAttribute piece

def Strips (text bare : Text) : Prop :=
  ∃ lead, text = lead ++ bare ∧ IsSequence (fun _ piece _ => IsSpacing piece) [] lead ∧ IsBare bare

theorem stripAttributes_cons (c : Char) (rest : Text) :
    stripAttributes none (c :: rest) =
      if Text.isBlank c then stripAttributes none rest
      else if c = '#' && rest.head? = some '[' then stripAttributes (some ⟨c :: rest, 0⟩) rest
      else c :: rest := rfl

theorem stripAttributes_opening (body : Text) :
    stripAttributes none ('#' :: '[' :: body) =
      ((afterBrackets? 1 body).map (stripAttributes none)).getD ('#' :: '[' :: body) :=
  stripAttributes_attribute ('#' :: '[' :: body) 0 body

private theorem stripAttributes_piece (piece behind : Text) (spacing : IsSpacing piece) :
    stripAttributes none (piece ++ behind) = stripAttributes none behind := by
  rcases spacing with ⟨c, rfl, blank⟩ | ⟨body, rfl, closes⟩
  · rw [List.singleton_append, stripAttributes_cons, if_pos blank]
  · have closed := (afterBrackets_eq_some_iff 1 _ behind).mpr ⟨body, rfl, closes⟩
    rw [List.cons_append, List.cons_append, stripAttributes_opening, closed, Option.map_some, Option.getD_some]

theorem stripAttributes_append (before lead rest : Text)
    (spacing : IsSequence (fun _ piece _ => IsSpacing piece) before lead) :
    stripAttributes none (lead ++ rest) = stripAttributes none rest := by
  induction spacing with
  | nil before => rfl
  | next before piece behind here later ih => rw [List.append_assoc, stripAttributes_piece piece _ here, ih]

theorem exists_opening {c : Char} {rest : Text} (opens : (c = '#' && rest.head? = some '[') = true) :
    ∃ body, c = '#' ∧ rest = '[' :: body := by
  have both : c = '#' ∧ rest.head? = some '[' := by simpa using opens
  obtain ⟨body, whole⟩ := List.head?_eq_some_iff.mp both.2
  exact ⟨body, both.1, whole⟩

private theorem stripAttributes_bare (text : Text) (bare : IsBare text) : stripAttributes none text = text := by
  cases text with
  | nil => rfl
  | cons c rest =>
      rw [stripAttributes_cons, if_neg (by simp [bare.solid c rfl])]
      split
      · rename_i opens
        obtain ⟨body, rfl, rfl⟩ := exists_opening opens
        have unclosed := (afterBrackets_one_eq_none_iff body).mpr bare.plain
        have stays := stripAttributes_opening body
        rw [unclosed] at stays
        exact stays
      · rfl

private theorem isBare_or_spacing (text : Text) :
    IsBare text ∨ ∃ piece behind, text = piece ++ behind ∧ IsSpacing piece ∧ 0 < piece.length := by
  cases text with
  | nil => exact .inl ⟨nofun, fun piece starts ⟨body, whole, _⟩ => by simp [whole] at starts⟩
  | cons c rest =>
      by_cases blank : Text.isBlank c = true
      · exact .inr ⟨[c], rest, rfl, .inl ⟨c, rfl, blank⟩, Nat.one_pos⟩
      have solid (d : Char) (first : (c :: rest).head? = some d) : Text.isBlank d = false := by
        cases first
        simpa using blank
      by_cases found : ∃ piece, piece <+: c :: rest ∧ IsAttribute piece
      · obtain ⟨piece, ⟨behind, whole⟩, isAttribute⟩ := found
        refine .inr ⟨piece, behind, whole.symm, .inr isAttribute, ?_⟩
        obtain ⟨body, rfl, _⟩ := isAttribute
        exact Nat.succ_pos _
      · exact .inl ⟨solid, fun piece starts isAttribute => found ⟨piece, starts, isAttribute⟩⟩

/-- Blanks and attributes are taken off until something else stands at the start. -/
theorem exists_stripped (size : Nat) (text before : Text) (small : text.length < size) :
    ∃ lead bare, text = lead ++ bare ∧ IsSequence (fun _ piece _ => IsSpacing piece) before lead ∧ IsBare bare := by
  induction size generalizing text before with
  | zero => exact absurd small (Nat.not_lt_zero _)
  | succ size ih =>
      rcases isBare_or_spacing text with bare | ⟨piece, behind, rfl, spacing, filled⟩
      · exact ⟨[], text, rfl, .nil before, bare⟩
      · rw [List.length_append] at small
        obtain ⟨lead, bare, rfl, later, isBare⟩ := ih behind (before ++ piece) (by omega)
        exact ⟨piece ++ lead, bare, (List.append_assoc _ _ _).symm, .next before piece lead spacing later, isBare⟩

theorem stripAttributes_eq_iff (text bare : Text) : stripAttributes none text = bare ↔ Strips text bare := by
  have read (bare : Text) (strips : Strips text bare) : stripAttributes none text = bare := by
    obtain ⟨lead, rfl, spacing, isBare⟩ := strips
    rw [stripAttributes_append [] lead bare spacing, stripAttributes_bare bare isBare]
  constructor
  · rintro rfl
    obtain ⟨lead, rest, strips⟩ := exists_stripped (text.length + 1) text [] (Nat.lt_succ_self _)
    rw [read rest ⟨lead, strips⟩]
    exact ⟨lead, strips⟩
  · exact read bare

end MemberDoc.Source
