import MemberDoc.Proofs.Lexemes

set_option autoImplicit false

/-! Namespaces and imports are read at the starts of lines up to a semicolon or a brace. A pad that is
exchanged before a class changes none of them. -/

namespace MemberDoc.Text

def IsClean (text : Text) : Prop :=
  '#' ∉ text

theorem IsClean.append {left right : Text} (first : IsClean left) (second : IsClean right) :
    IsClean (left ++ right) := by
  intro member
  rcases List.mem_append.mp member with inside | inside
  · exact first inside
  · exact second inside

theorem isClean_of_all (text : Text) (taken : Char → Bool) (all : ∀ c ∈ text, taken c = true)
    (sign : taken '#' = false) : IsClean text := by
  intro member
  rw [all '#' member] at sign
  cases sign

theorem trimStart_clean (text : Text) : ∃ taken, text = taken ++ trimStart text ∧ IsClean taken := by
  obtain ⟨pad, whole, blank⟩ := trimStart_split text
  exact ⟨pad, whole, isClean_of_all pad isBlank blank rfl⟩

private theorem afterKeyword_clean (word text rest : Text) (lower : word.all Char.isLower = true)
    (found : afterKeyword? word text = some rest) : ∃ taken, text = taken ++ rest ∧ IsClean taken := by
  induction word generalizing text with
  | nil =>
      cases found
      exact ⟨[], rfl, List.not_mem_nil⟩
  | cons expected word ih =>
      rw [List.all_cons, Bool.and_eq_true] at lower
      cases text with
      | nil => cases found
      | cons c text =>
          rw [afterKeyword?] at found
          split at found
          · rename_i same
            obtain ⟨taken, whole, clean⟩ := ih text lower.2 found
            refine ⟨c :: taken, by rw [whole]; rfl, ?_⟩
            intro member
            rcases List.mem_cons.mp member with sign | inside
            · have word := isWord_of_foldCase c expected lower.1 same
              rw [← sign] at word
              cases word
            · exact clean inside
          · cases found

private theorem afterBlanks_clean (text rest : Text) (found : afterBlanks? text = some rest) :
    ∃ taken, text = taken ++ rest ∧ IsClean taken := by
  obtain ⟨c, pad, whole, blank, blanks⟩ := afterBlanks_append text rest found
  refine ⟨c :: pad, whole, isClean_of_all _ isBlank (fun d member => ?_) rfl⟩
  rcases List.mem_cons.mp member with rfl | inside
  · exact blank
  · exact blanks d inside

end MemberDoc.Text

namespace MemberDoc.Source

/-- A reader takes a text without attribute signs that ends with a barrier, and sees nothing else. -/
structure EndsAtBarrier {α : Type} (read? : Text → Option (α × Text)) : Prop where
  takes : ∀ text value after, read? text = some (value, after) →
    ∃ taken last, text = taken ++ after ∧ taken.getLast? = some last ∧ Text.isBarrier last = true ∧
      Text.IsClean taken
  extend : ∀ text more last, text.getLast? = some last → Text.isBarrier last = true →
    read? (text ++ more) = (read? text).map fun found => (found.1, found.2 ++ more)

/-- Before its first attribute sign the text has no barrier. -/
def IsQuiet (text : Text) : Prop :=
  ∀ front behind, text = front ++ behind → Text.IsClean front → ∀ c ∈ front, Text.isBarrier c = false

private theorem IsPad.not_barrier (pad : Text) (isPad : Text.IsPad pad) (c : Char) (member : c ∈ pad) :
    Text.isBarrier c = false := by
  rcases isPad c member with rfl | rfl <;> rfl

/-- A barrier behind a pad is out of reach without an attribute sign. -/
theorem IsQuiet.out_of_reach {tail : Text} (quiet : IsQuiet tail) (pad extra after : Text) (isPad : Text.IsPad pad)
    (whole : pad ++ tail = extra ++ after) (clean : Text.IsClean extra) (last : Char)
    (ends : extra.getLast? = some last) : Text.isBarrier last = false := by
  have member := List.mem_of_getLast? ends
  rcases List.append_eq_append_iff.mp whole with ⟨front, longer, place⟩ | ⟨rest, longer, _⟩
  · rw [longer] at member
    rcases List.mem_append.mp member with inside | inside
    · exact IsPad.not_barrier pad isPad last inside
    · refine quiet front after place (fun sign => clean ?_) last inside
      rw [longer]
      exact List.mem_append_right pad sign
  · apply IsPad.not_barrier pad isPad
    rw [longer]
    exact List.mem_append_left rest member

theorem EndsAtBarrier.alone {α : Type} {read? : Text → Option (α × Text)} (reader : EndsAtBarrier read?)
    (text : Text) (value : α) (after : Text) (found : read? text = some (value, after)) :
    ∃ taken last, text = taken ++ after ∧ taken.getLast? = some last ∧ Text.isBarrier last = true ∧
      Text.IsClean taken ∧ ∀ more, read? (taken ++ more) = some (value, more) := by
  obtain ⟨taken, last, whole, ends, barrier, clean⟩ := reader.takes _ _ _ found
  have longer := reader.extend taken after last ends barrier
  rw [← whole, found] at longer
  obtain ⟨⟨own, rest⟩, known, same⟩ := Option.map_eq_some_iff.mp longer.symm
  obtain ⟨rfl, behind⟩ := Prod.mk.inj same
  have empty : rest = [] := List.append_left_eq_self.mp behind
  refine ⟨taken, last, whole, ends, barrier, clean, fun more => ?_⟩
  rw [reader.extend taken more last ends barrier, known, empty]
  rfl

theorem EndsAtBarrier.local {α : Type} {read? : Text → Option (α × Text)} (reader : EndsAtBarrier read?)
    (lead pad tail : Text) (isPad : Text.IsPad pad) (quiet : IsQuiet tail) (value : α) (after : Text)
    (found : read? (lead ++ (pad ++ tail)) = some (value, after)) :
    ∃ rest, rest.length < lead.length ∧ ∀ more, read? (lead ++ more) = some (value, rest ++ more) := by
  obtain ⟨taken, last, whole, ends, barrier, clean, alone⟩ := reader.alone _ _ _ found
  have positive := List.length_pos_iff.mpr (List.ne_nil_of_mem (List.mem_of_getLast? ends))
  have inside : ∃ rest, lead = taken ++ rest := by
    rcases List.append_eq_append_iff.mp whole with ⟨extra, longer, place⟩ | ⟨rest, longer, _⟩
    · cases extra with
      | nil => exact ⟨[], by rw [longer, List.append_nil, List.append_nil]⟩
      | cons c extra =>
          have lasting : (c :: extra).getLast? = some last := by
            rw [← Text.getLast_suffix lead (c :: extra) (List.cons_ne_nil c extra), ← longer, ends]
          have free : Text.IsClean (c :: extra) := by
            intro sign
            apply clean
            rw [longer]
            exact List.mem_append_right lead sign
          have unbarred := quiet.out_of_reach pad (c :: extra) after isPad place free last lasting
          rw [unbarred] at barrier
          cases barrier
    · exact ⟨rest, longer⟩
  obtain ⟨rest, longer⟩ := inside
  refine ⟨rest, by rw [longer, List.length_append]; omega, fun more => ?_⟩
  rw [longer, List.append_assoc, alone]

theorem findAtLines_cons {α : Type} (read? : Text → Option (α × Text)) (atStart : Bool) (c : Char) (rest : Text) :
    findAtLines read? 0 atStart (c :: rest) =
      match if atStart then read? (c :: rest) else none with
      | some (found, after) => found :: findAtLines read? (rest.length - after.length) (c == '\n') rest
      | none => findAtLines read? 0 (c == '\n') rest := by
  with_unfolding_all rfl

private theorem findAtLines_blank {α : Type} (read? : Text → Option (α × Text)) (pad tail : Text)
    (isPad : Text.IsPad pad) (nothing : ∀ spaces, Text.IsPad spaces → read? (spaces ++ tail) = none) (atStart : Bool) :
    findAtLines read? 0 atStart (pad ++ tail) = findAtLines read? 0 false tail := by
  induction pad generalizing atStart with
  | nil =>
      have unread := nothing [] isPad
      rw [List.nil_append] at unread ⊢
      cases tail with
      | nil => cases atStart <;> rfl
      | cons c tail => rw [findAtLines_cons, findAtLines_cons, unread, ite_self, ite_self]
  | cons c pad ih =>
      have unread := nothing (c :: pad) isPad
      rw [List.cons_append] at unread ⊢
      rw [findAtLines_cons, unread, ite_self]
      exact ih isPad.tail _

/-- Whether a line starts behind a text, if one starts before it or does not. -/
def startsLine (atStart : Bool) (lead : Text) : Bool :=
  match lead.getLast? with
  | none => atStart
  | some c => c == '\n'

@[simp] theorem startsLine_cons (atStart : Bool) (c : Char) (lead : Text) :
    startsLine atStart (c :: lead) = startsLine (c == '\n') lead := by
  cases lead <;> rfl

@[simp] theorem startsLine_append (atStart : Bool) (left right : Text) :
    startsLine atStart (left ++ right) = startsLine (startsLine atStart left) right := by
  induction left generalizing atStart with
  | nil => rfl
  | cons c left ih => rw [List.cons_append, startsLine_cons, startsLine_cons, ih]

private theorem findAtLines_skip {α : Type} (read? : Text → Option (α × Text)) (skip : Nat) (atStart : Bool)
    (lead rest : Text) :
    findAtLines read? (lead.length + skip) atStart (lead ++ rest) =
      findAtLines read? skip (startsLine atStart lead) rest := by
  induction lead generalizing atStart with
  | nil => rw [List.length_nil, Nat.zero_add, List.nil_append, startsLine, List.getLast?_nil]
  | cons c lead ih =>
      have sizes : (c :: lead).length + skip = lead.length + skip + 1 := by
        rw [List.length_cons]
        omega
      rw [sizes, List.cons_append, startsLine_cons, ← ih]
      rfl

private theorem findAtLines_started {α : Type} (read? : Text → Option (α × Text)) (skip : Nat) (positive : 0 < skip)
    (first second : Bool) (text : Text) : findAtLines read? skip first text = findAtLines read? skip second text := by
  cases skip with
  | zero => exact absurd positive (Nat.lt_irrefl 0)
  | succ skip => cases text <;> rfl

/-- How a reader changes when a pad inside the text is exchanged. It finds nothing, ends before the pad, or
reaches beyond it and finds the same. -/
inductive ReadAround {α : Type} (read? : Text → Option (α × Text)) (lead pad other tail : Text) : Prop where
  | missing (before : read? (lead ++ (pad ++ tail)) = none) (after : read? (lead ++ (other ++ tail)) = none)
  | inside (value : α) (rest : Text) (before : read? (lead ++ (pad ++ tail)) = some (value, rest ++ (pad ++ tail)))
      (after : read? (lead ++ (other ++ tail)) = some (value, rest ++ (other ++ tail)))
  | beyond (value : α) (rest : Text) (shorter : rest.length < tail.length)
      (before : read? (lead ++ (pad ++ tail)) = some (value, rest))
      (after : read? (lead ++ (other ++ tail)) = some (value, rest))

/-- What is found at the starts of lines does not change with a pad behind which nothing starts. -/
theorem findAtLines_beside {α : Type} (read? : Text → Option (α × Text)) (lead pad other tail : Text)
    (isPad : Text.IsPad pad) (isOther : Text.IsPad other)
    (around : ∀ front back, lead = front ++ back → back ≠ [] → ReadAround read? back pad other tail)
    (nothing : ∀ spaces, Text.IsPad spaces → read? (spaces ++ tail) = none)
    (skip : Nat) (atStart : Bool) (bound : skip ≤ lead.length) :
    findAtLines read? skip atStart (lead ++ (pad ++ tail)) =
      findAtLines read? skip atStart (lead ++ (other ++ tail)) := by
  induction lead generalizing skip atStart with
  | nil =>
      have zero : skip = 0 := Nat.le_zero.mp bound
      subst zero
      rw [List.nil_append, List.nil_append, findAtLines_blank read? pad tail isPad nothing,
        findAtLines_blank read? other tail isOther nothing]
  | cons c lead ih =>
      have later := ih fun front back whole => around (c :: front) back (by rw [whole]; rfl)
      cases skip with
      | succ skip => exact later skip _ (Nat.le_of_succ_le_succ bound)
      | zero =>
          rw [List.cons_append, List.cons_append, findAtLines_cons, findAtLines_cons]
          cases atStart with
          | false => exact later 0 _ (Nat.zero_le _)
          | true =>
              rw [if_pos rfl, if_pos rfl]
              cases around [] (c :: lead) rfl (List.cons_ne_nil c lead) with
              | missing before after =>
                  rw [List.cons_append] at before after
                  rw [before, after]
                  exact later 0 _ (Nat.zero_le _)
              | inside value rest before after =>
                  rw [List.cons_append] at before after
                  rw [before, after]
                  have count (behind : Text) :
                      (lead ++ behind).length - (rest ++ behind).length = lead.length - rest.length := by
                    rw [List.length_append, List.length_append]
                    omega
                  dsimp only
                  rw [count, count, later _ _ (Nat.sub_le _ _)]
              | beyond value rest shorter before after =>
                  rw [List.cons_append] at before after
                  rw [before, after]
                  have count (padding : Text) : (lead ++ (padding ++ tail)).length - rest.length =
                      lead.length + (padding.length + (tail.length - rest.length)) := by
                    rw [List.length_append, List.length_append]
                    omega
                  dsimp only
                  rw [count, count, findAtLines_skip, findAtLines_skip, findAtLines_skip, findAtLines_skip,
                    findAtLines_started read? _ (Nat.sub_pos_of_lt shorter)]

private theorem EndsAtBarrier.nothing {α : Type} {read? : Text → Option (α × Text)} (reader : EndsAtBarrier read?)
    (tail : Text) (quiet : IsQuiet tail) (spaces : Text) (spaced : Text.IsPad spaces) :
    read? (spaces ++ tail) = none := by
  cases found : read? (spaces ++ tail) with
  | none => rfl
  | some parts =>
      obtain ⟨rest, short, _⟩ := reader.local [] spaces tail spaced quiet parts.1 parts.2 found
      exact absurd short (Nat.not_lt_zero _)

private theorem EndsAtBarrier.around {α : Type} {read? : Text → Option (α × Text)} (reader : EndsAtBarrier read?)
    (lead pad other tail : Text) (isPad : Text.IsPad pad) (isOther : Text.IsPad other) (quiet : IsQuiet tail) :
    ReadAround read? lead pad other tail := by
  cases before : read? (lead ++ (pad ++ tail)) with
  | some parts =>
      obtain ⟨rest, _, known⟩ := reader.local lead pad tail isPad quiet parts.1 parts.2 before
      exact .inside parts.1 rest (known _) (known _)
  | none =>
      cases after : read? (lead ++ (other ++ tail)) with
      | none => exact .missing before after
      | some parts =>
          obtain ⟨rest, _, known⟩ := reader.local lead other tail isOther quiet parts.1 parts.2 after
          rw [known] at before
          cases before

theorem findAtLines_around {α : Type} (read? : Text → Option (α × Text)) (reader : EndsAtBarrier read?)
    (lead pad other tail : Text) (isPad : Text.IsPad pad) (isOther : Text.IsPad other) (quiet : IsQuiet tail)
    (skip : Nat) (atStart : Bool) (bound : skip ≤ lead.length) :
    findAtLines read? skip atStart (lead ++ (pad ++ tail)) =
      findAtLines read? skip atStart (lead ++ (other ++ tail)) :=
  findAtLines_beside read? lead pad other tail isPad isOther
    (fun _ back _ _ => reader.around back pad other tail isPad isOther quiet) (reader.nothing tail quiet) skip atStart
    bound

/-- A reader that takes a text without attribute signs before a barrier, and sees nothing behind the barrier. -/
structure IsLexeme {α : Type} (read? : Text → Option (α × Text)) : Prop where
  takes : ∀ text value rest, read? text = some (value, rest) → ∃ taken, text = taken ++ rest ∧ Text.IsClean taken
  extend : ∀ text more last, text.getLast? = some last → Text.isBarrier last = true →
    read? (text ++ more) = (read? text).map (fun found => (found.1, found.2 ++ more)) ∧
      ∀ value rest, read? text = some (value, rest) → rest.getLast? = some last

theorem IsLexeme.bind {α β : Type} {first? : Text → Option (β × Text)} {second? : β → Text → Option (α × Text)}
    (lexeme : IsLexeme first?) (reader : ∀ value, EndsAtBarrier (second? value)) :
    EndsAtBarrier fun text => (first? text).bind fun found => second? found.1 found.2 where
  takes text value after found := by
    obtain ⟨⟨own, rest⟩, first, second⟩ := Option.bind_eq_some_iff.mp found
    obtain ⟨front, place, frontClean⟩ := lexeme.takes _ _ _ first
    obtain ⟨taken, last, further, ends, barrier, clean⟩ := (reader own).takes rest value after second
    have nonempty := List.ne_nil_of_mem (List.mem_of_getLast? ends)
    refine ⟨front ++ taken, last, ?_, ?_, barrier, frontClean.append clean⟩
    · rw [place, further, List.append_assoc]
    · rw [Text.getLast_suffix front taken nonempty, ends]
  extend text more last ends barrier := by
    obtain ⟨longer, lasting⟩ := lexeme.extend text more last ends barrier
    rw [longer]
    cases known : first? text with
    | none => rfl
    | some found => exact (reader found.1).extend found.2 more last (lasting _ _ known) barrier

def skipping (skip? : Text → Option Text) (text : Text) : Option (Unit × Text) :=
  (skip? text).map (Prod.mk ())

theorem isLexeme_skipping {skip? : Text → Option Text}
    (takes : ∀ text rest, skip? text = some rest → ∃ taken, text = taken ++ rest ∧ Text.IsClean taken)
    (extend : ∀ text more last, text.getLast? = some last → Text.isBarrier last = true →
      skip? (text ++ more) = (skip? text).map (· ++ more) ∧
        ∀ rest, skip? text = some rest → rest.getLast? = some last) : IsLexeme (skipping skip?) where
  takes text _ rest found := by
    obtain ⟨_, known, same⟩ := Option.map_eq_some_iff.mp found
    cases same
    exact takes text rest known
  extend text more last ends barrier := by
    obtain ⟨longer, lasting⟩ := extend text more last ends barrier
    refine ⟨?_, fun _ rest found => ?_⟩
    · unfold skipping
      rw [longer]
      cases skip? text <;> rfl
    · obtain ⟨_, known, same⟩ := Option.map_eq_some_iff.mp found
      cases same
      exact lasting rest known

theorem IsLexeme.behind {α : Type} {skip? : Text → Option Text} {read? : Text → Option (α × Text)}
    (lexeme : IsLexeme (skipping skip?)) (reader : EndsAtBarrier read?) :
    EndsAtBarrier fun text => (skip? text).bind read? := by
  have whole := lexeme.bind fun _ => reader
  unfold skipping at whole
  simpa only [Option.bind_map, Function.comp_def] using whole

theorem isLexeme_trimStart : IsLexeme (skipping fun text => some (Text.trimStart text)) := by
  apply isLexeme_skipping
  · intro text rest found
    cases found
    exact Text.trimStart_clean text
  · intro text more last ends barrier
    have nonempty := Text.trimStart_ne_nil text last ends (Text.not_taken_of_isBarrier last barrier).2.1
    refine ⟨by rw [Text.trimStart_append, if_neg nonempty]; rfl, fun rest found => ?_⟩
    cases found
    exact Text.getLast_trimStart text last ends nonempty

theorem isLexeme_keyword (word : Text) (lower : word.all Char.isLower = true) :
    IsLexeme (skipping (Text.afterKeyword? word)) :=
  isLexeme_skipping (fun text rest => Text.afterKeyword_clean word text rest lower) fun text more last ends barrier =>
    Text.afterKeyword_extend word text more last lower ends (Text.not_taken_of_isBarrier last barrier).1

theorem isLexeme_blanks : IsLexeme (skipping Text.afterBlanks?) :=
  isLexeme_skipping Text.afterBlanks_clean fun text more last ends barrier =>
    Text.afterBlanks_extend text more last ends (Text.not_taken_of_isBarrier last barrier).2.1

def unrooted (text : Text) : Text :=
  match text with
  | '\\' :: bare => bare
  | _ => text

private theorem unrooted_clean (text : Text) : ∃ taken, text = taken ++ unrooted text ∧ Text.IsClean taken := by
  unfold unrooted
  split
  · exact ⟨['\\'], rfl, by simp [Text.IsClean]⟩
  · exact ⟨[], rfl, List.not_mem_nil⟩

private theorem unrooted_extend (text more : Text) (last : Char) (ends : text.getLast? = some last)
    (barrier : Text.isBarrier last = true) :
    unrooted (text ++ more) = unrooted text ++ more ∧ (unrooted text).getLast? = some last := by
  obtain ⟨_, _, _, _, unslashed, _⟩ := Text.not_taken_of_isBarrier last barrier
  cases text with
  | nil => cases ends
  | cons c text =>
      by_cases slash : c = '\\'
      · subst slash
        cases text with
        | nil => exact absurd (Option.some.inj ends).symm unslashed
        | cons d text => exact ⟨rfl, ends⟩
      · have bare (rest : Text) : unrooted (c :: rest) = c :: rest := by
          unfold unrooted
          split
          · rename_i same
            exact absurd (List.cons.inj same).1 slash
          · rfl
        rw [List.cons_append, bare, bare]
        exact ⟨rfl, ends⟩

private theorem isLexeme_unrooted : IsLexeme (skipping fun text => some (unrooted text)) := by
  apply isLexeme_skipping
  · intro text rest found
    cases found
    exact unrooted_clean text
  · intro text more last ends barrier
    obtain ⟨longer, lasting⟩ := unrooted_extend text more last ends barrier
    refine ⟨by rw [longer]; rfl, fun rest found => ?_⟩
    cases found
    exact lasting

def letterName? (isPart : Char → Bool) : Text → Option (Text × Text)
  | [] => none
  | c :: rest =>
      if Text.isLetterStart c then some (c :: rest.takeWhile isPart, rest.dropWhile isPart) else none

theorem isLexeme_letterName (isPart : Char → Bool) (unsigned : isPart '#' = false)
    (apart : ∀ last, Text.isBarrier last = true → isPart last = false) : IsLexeme (letterName? isPart) where
  takes text name rest found := by
    cases text with
    | nil => cases found
    | cons c text =>
        rw [letterName?] at found
        split at found
        · rename_i start
          cases found
          refine ⟨c :: text.takeWhile isPart, by rw [List.cons_append, List.takeWhile_append_dropWhile], fun sign => ?_⟩
          rcases List.mem_cons.mp sign with here | inside
          · rw [← here] at start
            cases start
          · rw [List.all_eq_true.mp List.all_takeWhile _ inside] at unsigned
            cases unsigned
        · cases found
  extend text more last ends barrier := by
    cases text with
    | nil => cases ends
    | cons c text =>
        rw [List.cons_append, letterName?, letterName?]
        by_cases start : Text.isLetterStart c = true
        · rw [if_pos start, if_pos start]
          cases text with
          | nil =>
              have same : c = last := Option.some.inj ends
              rw [same, (Text.not_taken_of_isBarrier last barrier).2.2.2.1] at start
              cases start
          | cons d text =>
              obtain ⟨taking, dropping, lasting⟩ := Text.takeWhile_extend isPart (d :: text) more last ends (apart last barrier)
              rw [taking, dropping]
              refine ⟨rfl, fun name rest found => ?_⟩
              cases found
              exact lasting
        · rw [if_neg start, if_neg start]
          exact ⟨rfl, fun name rest found => by cases found⟩

def closing? {α : Type} (closes : Char → Bool) (value : α) (text : Text) : Option (α × Text) :=
  match Text.trimStart text with
  | c :: after => if closes c then some (value, after) else none
  | [] => none

theorem closing_of_trimStart {α : Type} (closes : Char → Bool) (value : α) (text : Text) (c : Char) (after : Text)
    (trimmed : Text.trimStart text = c :: after) :
    closing? closes value text = if closes c then some (value, after) else none := by
  rw [closing?, trimmed]

theorem endsAtBarrier_closing {α : Type} (closes : Char → Bool) (value : α)
    (isBarrier : ∀ c, closes c = true → Text.isBarrier c = true) : EndsAtBarrier (closing? closes value) where
  takes text own after found := by
    obtain ⟨pad, place, clean⟩ := Text.trimStart_clean text
    unfold closing? at found
    split at found
    · rename_i c behind trimmed
      split at found
      · rename_i closed
        cases found
        have barrier := isBarrier c closed
        refine ⟨pad ++ [c], c, by rw [place, trimmed, List.append_assoc]; rfl, List.getLast?_concat, barrier, ?_⟩
        refine clean.append fun sign => ?_
        exact (Text.not_taken_of_isBarrier c barrier).2.2.2.2.2 (List.mem_singleton.mp sign).symm
      · cases found
    · cases found
  extend text more last ends barrier := by
    have nonempty := Text.trimStart_ne_nil text last ends (Text.not_taken_of_isBarrier last barrier).2.1
    obtain ⟨c, after, trimmed⟩ := List.exists_cons_of_ne_nil nonempty
    have longer : Text.trimStart (text ++ more) = c :: (after ++ more) := by
      rw [Text.trimStart_append, if_neg nonempty, trimmed, List.cons_append]
    rw [closing_of_trimStart closes value _ _ _ longer, closing_of_trimStart closes value _ _ _ trimmed]
    split <;> rfl

private theorem EndsAtBarrier.or {α : Type} {first? second? : Text → Option (α × Text)} (first : EndsAtBarrier first?)
    (second : EndsAtBarrier second?) : EndsAtBarrier fun text => (first? text).or (second? text) where
  takes text value after found := by
    rcases Option.or_eq_some_iff.mp found with here | ⟨_, there⟩
    · exact first.takes text value after here
    · exact second.takes text value after there
  extend text more last ends barrier := by
    rw [first.extend text more last ends barrier, second.extend text more last ends barrier]
    cases first? text <;> rfl

private theorem EndsAtBarrier.map {α β : Type} {read? : Text → Option (α × Text)} (reader : EndsAtBarrier read?)
    (of : α → β) :
    EndsAtBarrier fun text => (read? text).map fun found => (of found.1, found.2) where
  takes text value after found := by
    obtain ⟨⟨own, rest⟩, known, same⟩ := Option.map_eq_some_iff.mp found
    cases same
    exact reader.takes text own rest known
  extend text more last ends barrier := by
    rw [reader.extend text more last ends barrier]
    cases read? text <;> rfl

theorem qualifiedName_eq : qualifiedName? = letterName? fun c => Text.isWord c || c == '\\' := by
  funext text
  cases text <;> rfl

theorem isLexeme_qualifiedName : IsLexeme qualifiedName? := by
  rw [qualifiedName_eq]
  apply isLexeme_letterName _ rfl
  intro last barrier
  obtain ⟨apart, _, _, _, unslashed, _⟩ := Text.not_taken_of_isBarrier last barrier
  simp [apart, unslashed]

def scopeAt? (text : Text) : Option (Text × Text) := do
  let (name, rest) ← qualifiedName? text
  match Text.trimStart rest with
  | c :: after => if c == ';' || c == '\x7b' then some (name, after) else none
  | [] => none

theorem scopeAt_eq (text : Text) :
    scopeAt? text = (qualifiedName? text).bind fun found => closing? Text.isBarrier found.1 found.2 := rfl

theorem scopeAt_endsAtBarrier : EndsAtBarrier scopeAt? :=
  isLexeme_qualifiedName.bind fun name => endsAtBarrier_closing Text.isBarrier name fun _ closes => closes

theorem namespaceAt_eq (text : Text) :
    namespaceAt? text = (Text.afterKeyword? "namespace".toList (Text.trimStart text)).bind fun rest =>
      (Text.afterBlanks? rest).bind scopeAt? := rfl

theorem namespaceAt_endsAtBarrier : EndsAtBarrier namespaceAt? :=
  isLexeme_trimStart.behind ((isLexeme_keyword "namespace".toList (by decide)).behind
    (isLexeme_blanks.behind scopeAt_endsAtBarrier))

theorem afterSemicolon_eq {α : Type} (value : α) (text : Text) :
    (afterSemicolon? text).map (Prod.mk value) = closing? (· == ';') value text := by
  unfold afterSemicolon?
  split
  · rename_i after trimmed
    rw [closing_of_trimStart _ value text _ _ trimmed]
    rfl
  · rename_i other
    cases trimmed : Text.trimStart text with
    | nil =>
        rw [closing?, trimmed]
        rfl
    | cons c after =>
        rw [closing_of_trimStart _ value text _ _ trimmed, if_neg]
        · rfl
        · intro semicolon
          rw [beq_iff_eq.mp semicolon] at trimmed
          exact other after trimmed

theorem endsAtBarrier_semicolon {α : Type} (value : α) : EndsAtBarrier (closing? (· == ';') value) := by
  apply endsAtBarrier_closing
  intro c semicolon
  rw [beq_iff_eq.mp semicolon]
  rfl

theorem localNameAt_eq (text : Text) :
    localNameAt? text = (Text.afterBlanks? text).bind fun behind => (Text.afterKeyword? "as".toList behind).bind fun rest =>
      (Text.afterBlanks? rest).bind fun spaced =>
        (letterName? Text.isWord spaced).bind fun found => closing? (· == ';') found.1 found.2 := by
  unfold localNameAt?
  refine Option.bind_congr fun behind _ => Option.bind_congr fun rest _ => Option.bind_congr fun spaced _ => ?_
  cases spaced with
  | nil => rfl
  | cons c rest =>
      dsimp only [letterName?]
      split
      · dsimp only [Option.bind_some]
        rw [← afterSemicolon_eq]
        cases afterSemicolon? (rest.dropWhile Text.isWord) <;> rfl
      · rfl

private theorem localNameAt_endsAtBarrier : EndsAtBarrier localNameAt? := by
  have whole := isLexeme_blanks.behind ((isLexeme_keyword "as".toList (by decide)).behind (isLexeme_blanks.behind
    ((isLexeme_letterName Text.isWord rfl fun last barrier => (Text.not_taken_of_isBarrier last barrier).1).bind
      endsAtBarrier_semicolon)))
  rw [show localNameAt? = _ from funext localNameAt_eq]
  exact whole

/-- What an import makes of a name: it is called by a name of its own, or by its last segment. -/
def importOf? (name rest : Text) : Option (Import × Text) :=
  ((localNameAt? rest).map fun found => (⟨Text.lower found.1, name⟩, found.2)).or
    (closing? (· == ';') ⟨Text.lower (ClassName.short name), name⟩ rest)

theorem importAt_eq (text : Text) :
    importAt? text = (Text.afterKeyword? "use".toList (Text.trimStart text)).bind fun rest =>
      (Text.afterBlanks? rest).bind fun spaced =>
        (qualifiedName? (unrooted spaced)).bind fun found => importOf? found.1 found.2 := by
  unfold importAt?
  refine Option.bind_congr fun rest _ => Option.bind_congr fun spaced _ => Option.bind_congr fun found _ => ?_
  unfold importOf?
  rw [← afterSemicolon_eq]
  cases known : localNameAt? found.2 with
  | some parts =>
      dsimp only
      rw [known]
      rfl
  | none =>
      dsimp only
      rw [known]
      cases afterSemicolon? found.2 <;> rfl

theorem importAt_endsAtBarrier : EndsAtBarrier importAt? := by
  have whole := isLexeme_trimStart.behind ((isLexeme_keyword "use".toList (by decide)).behind (isLexeme_blanks.behind
    (isLexeme_unrooted.behind (isLexeme_qualifiedName.bind fun name =>
      (localNameAt_endsAtBarrier.map fun localName => (⟨Text.lower localName, name⟩ : Import)).or
        (endsAtBarrier_semicolon ⟨Text.lower (ClassName.short name), name⟩)))))
  rw [show importAt? = _ from funext importAt_eq]
  exact whole

end MemberDoc.Source
