import MemberDoc.Proofs.NamespaceScope

set_option autoImplicit false

/-! The namespace in force behind a place where a text changes. Blanks before a class do not change it, and
behind a semicolon or a brace it is read anew. -/

namespace MemberDoc.Source

theorem namespaceAt_blank (pad text : Text) (blank : ∀ c ∈ pad, Text.isBlank c = true) :
    namespaceAt? (pad ++ text) = namespaceAt? text := by
  rw [namespaceAt_eq, namespaceAt_eq, Text.trimStart_pad pad text blank]

/-- A text whose first word starts with another letter sets no namespace. -/
theorem namespaceAt_other (c : Char) (rest : Text) (solid : Text.isBlank c = false) (other : Text.foldCase c ≠ 'n') :
    namespaceAt? (c :: rest) = none := by
  have trimmed : Text.trimStart (c :: rest) = c :: rest := List.dropWhile_cons_of_neg (by simp [solid])
  have missing : Text.afterKeyword? "namespace".toList (c :: rest) = none := if_neg other
  rw [namespaceAt_eq, trimmed, missing]
  rfl

private theorem EndsAtBarrier.shorter {α : Type} {read? : Text → Option (α × Text)} (reader : EndsAtBarrier read?)
    (text : Text) (value : α) (after : Text) (found : read? text = some (value, after)) : after.length < text.length := by
  obtain ⟨taken, last, whole, ends, _⟩ := reader.takes text value after found
  have positive := List.length_pos_iff.mpr (List.ne_nil_of_mem (List.mem_of_getLast? ends))
  rw [whole, List.length_append]
  omega

theorem ReadAround.of_eq {α : Type} {read? inner? : Text → Option (α × Text)} {lead rest pad other tail : Text}
    (around : ReadAround inner? rest pad other tail) (same : ∀ more, read? (lead ++ more) = inner? (rest ++ more)) :
    ReadAround read? lead pad other tail := by
  cases around with
  | missing before after => exact .missing (by rw [same, before]) (by rw [same, after])
  | inside value behind before after => exact .inside value behind (by rw [same, before]) (by rw [same, after])
  | beyond value behind shorter before after =>
      exact .beyond value behind shorter (by rw [same, before]) (by rw [same, after])

theorem readAround_over {α : Type} {read? inner? : Text → Option (α × Text)} {lead pad other tail : Text}
    (reader : EndsAtBarrier inner?) (rest : Text) (within : rest.length ≤ tail.length) (isPad : Text.IsPad pad)
    (isOther : Text.IsPad other)
    (same : ∀ padding, Text.IsPad padding → read? (lead ++ (padding ++ tail)) = inner? rest) :
    ReadAround read? lead pad other tail := by
  cases known : inner? rest with
  | none =>
      rw [known] at same
      exact .missing (same pad isPad) (same other isOther)
  | some parts =>
      rw [known] at same
      have shorter := Nat.lt_of_lt_of_le (reader.shorter rest parts.1 parts.2 known) within
      exact .beyond parts.1 parts.2 shorter (same pad isPad) (same other isOther)

private theorem closingAround {α : Type} (closes : Char → Bool) (value : α)
    (isBarrier : ∀ c, closes c = true → Text.isBarrier c = true) (lead pad other tail : Text) (isPad : Text.IsPad pad)
    (isOther : Text.IsPad other) : ReadAround (closing? closes value) lead pad other tail := by
  by_cases empty : Text.trimStart lead = []
  · apply readAround_over (endsAtBarrier_closing closes value isBarrier) tail (Nat.le_refl _) isPad isOther
    intro padding padded
    rw [closing?, closing?, Text.trimStart_append, if_pos empty, Text.trimStart_pad padding tail padded.blank]
  · obtain ⟨c, behind, known⟩ := List.exists_cons_of_ne_nil empty
    have read (more : Text) : closing? closes value (lead ++ more) =
        if closes c then some (value, behind ++ more) else none := by
      apply closing_of_trimStart
      rw [Text.trimStart_append, if_neg empty, known, List.cons_append]
    by_cases closed : closes c = true
    · simp only [if_pos closed] at read
      exact .inside value behind (read _) (read _)
    · simp only [if_neg closed] at read
      exact .missing (read _) (read _)

/-- A character at which neither a word nor a name with namespace goes on. -/
def IsScopeEnd (c : Char) : Prop :=
  Text.isWord c = false ∧ c ≠ '\\'

private theorem scopeAround (lead pad other tail : Text) (isPad : Text.IsPad pad) (isOther : Text.IsPad other)
    (last : Char) (ends : lead.getLast? = some last) (apart : IsScopeEnd last) :
    ReadAround scopeAt? lead pad other tail := by
  cases lead with
  | nil => cases ends
  | cons c lead =>
      by_cases start : Text.isLetterStart c = true
      · have nonempty : lead ≠ [] := by
          rintro rfl
          have same : c = last := Option.some.inj ends
          rw [same] at start
          have word := Text.isWord_of_isLetterStart last start
          rw [apart.1] at word
          cases word
        have lasting : lead.getLast? = some last := by rw [← ends, ← Text.getLast_suffix [c] lead nonempty]; rfl
        have untaken : (Text.isWord last || last == '\\') = false := by simp [apart.1, apart.2]
        -- The name ends before the pad, so only what closes it is read around the pad.
        apply (closingAround Text.isBarrier (c :: lead.takeWhile fun d => Text.isWord d || d == '\\') (fun _ closes => closes)
          (lead.dropWhile fun d => Text.isWord d || d == '\\') pad other tail isPad isOther).of_eq
        intro more
        obtain ⟨taking, dropping, _⟩ :=
          Text.takeWhile_extend (fun d => Text.isWord d || d == '\\') lead more last lasting untaken
        rw [scopeAt_eq, List.cons_append, qualifiedName?, if_pos start]
        dsimp only [Option.bind_some]
        rw [taking, dropping]
      · have missing (more : Text) : scopeAt? (c :: lead ++ more) = none := by
          rw [scopeAt_eq, List.cons_append, qualifiedName?, if_neg start]
          rfl
        exact .missing (missing _) (missing _)

private theorem namespaceAround (lead pad other tail : Text) (isPad : Text.IsPad pad) (isOther : Text.IsPad other)
    (last : Char) (ends : lead.getLast? = some last) (apart : IsScopeEnd last) (silent : namespaceAt? tail = none) :
    ReadAround namespaceAt? lead pad other tail := by
  by_cases empty : Text.trimStart lead = []
  · have blank := Text.trimStart_eq_nil lead empty
    have missing (padding : Text) (padded : Text.IsPad padding) : namespaceAt? (lead ++ (padding ++ tail)) = none := by
      rw [namespaceAt_blank lead _ blank, namespaceAt_blank padding _ padded.blank, silent]
    exact .missing (missing pad isPad) (missing other isOther)
  · have keyword (more : Text) := (Text.afterKeyword_extend "namespace".toList (Text.trimStart lead) more last (by decide)
      (Text.getLast_trimStart lead last ends empty) apart.1).1
    have lasting := (Text.afterKeyword_extend "namespace".toList (Text.trimStart lead) [] last (by decide)
      (Text.getLast_trimStart lead last ends empty) apart.1).2
    have read (more : Text) : namespaceAt? (lead ++ more) =
        (Text.afterKeyword? "namespace".toList (Text.trimStart lead)).bind fun rest =>
          (Text.afterBlanks? (rest ++ more)).bind scopeAt? := by
      rw [namespaceAt_eq, Text.trimStart_append, if_neg empty, keyword, Option.bind_map]
      rfl
    cases found : Text.afterKeyword? "namespace".toList (Text.trimStart lead) with
    | none =>
        rw [found] at read
        exact .missing (read _) (read _)
    | some behind =>
        have behindEnds := lasting behind found
        rw [found] at read
        cases behind with
        | nil => cases behindEnds
        | cons c rest =>
            by_cases blank : Text.isBlank c = true
            · have spaced (more : Text) : namespaceAt? (lead ++ more) = scopeAt? (Text.trimStart (rest ++ more)) := by
                rw [read, Option.bind_some, List.cons_append, Text.afterBlanks?, if_pos blank, Option.bind_some]
              by_cases ended : Text.trimStart rest = []
              · apply readAround_over scopeAt_endsAtBarrier (Text.trimStart tail) (Text.trimStart_suffix tail).length_le isPad isOther
                intro padding padded
                rw [spaced, Text.trimStart_append, if_pos ended, Text.trimStart_pad padding tail padded.blank]
              · have nonempty : rest ≠ [] := fun empty => ended (by rw [empty]; rfl)
                have restEnds : rest.getLast? = some last := by
                  rw [← behindEnds, ← Text.getLast_suffix [c] rest nonempty]
                  rfl
                apply (scopeAround (Text.trimStart rest) pad other tail isPad isOther last
                  (Text.getLast_trimStart rest last restEnds ended) apart).of_eq
                intro more
                rw [spaced, Text.trimStart_append, if_neg ended]
            · have missing (more : Text) : namespaceAt? (lead ++ more) = none := by
                rw [read, Option.bind_some, List.cons_append, Text.afterBlanks?, if_neg blank]
                rfl
              exact .missing (missing _) (missing _)

/-- The namespace in force does not change with a pad behind which none is set. -/
theorem namespaceOf_beside (lead pad other tail : Text) (isPad : Text.IsPad pad) (isOther : Text.IsPad other)
    (apart : ∀ last, lead.getLast? = some last → IsScopeEnd last) (silent : namespaceAt? tail = none) :
    namespaceOf (lead ++ (pad ++ tail)) = namespaceOf (lead ++ (other ++ tail)) := by
  unfold namespaceOf
  rw [findAtLines_beside namespaceAt? lead pad other tail isPad isOther _ _ 0 true (Nat.zero_le _)]
  · intro front back whole nonempty
    obtain ⟨last, ends⟩ : ∃ last, back.getLast? = some last := ⟨_, List.getLast?_eq_some_getLast nonempty⟩
    refine namespaceAround back pad other tail isPad isOther last ends (apart last ?_) silent
    rw [whole, Text.getLast_suffix front back nonempty, ends]
  · intro spaces spaced
    rw [namespaceAt_blank spaces tail spaced.blank, silent]

private theorem EndsAtBarrier.append {α : Type} {read? : Text → Option (α × Text)} (reader : EndsAtBarrier read?)
    (text more : Text) (value : α) (after : Text) (found : read? text = some (value, after)) :
    read? (text ++ more) = some (value, after ++ more) := by
  obtain ⟨taken, _, whole, _, _, _, alone⟩ := reader.alone _ _ _ found
  rw [whole, List.append_assoc, alone]

theorem EndsAtBarrier.none_of_append {α : Type} {read? : Text → Option (α × Text)} (reader : EndsAtBarrier read?)
    (text more : Text) (missing : read? (text ++ more) = none) : read? text = none := by
  cases found : read? text with
  | none => rfl
  | some parts =>
      rw [reader.append text more parts.1 parts.2 found] at missing
      cases missing

/-- Behind a barrier a reader starts anew. -/
theorem findAtLines_extend {α : Type} (read? : Text → Option (α × Text)) (reader : EndsAtBarrier read?)
    (lead more : Text) (barrier : ∀ last, lead.getLast? = some last → Text.isBarrier last = true)
    (skip : Nat) (atStart : Bool) (bound : skip ≤ lead.length) :
    findAtLines read? skip atStart (lead ++ more) =
      findAtLines read? skip atStart lead ++ findAtLines read? 0 (startsLine atStart lead) more := by
  induction lead generalizing skip atStart with
  | nil =>
      have zero : skip = 0 := Nat.le_zero.mp bound
      subst zero
      rfl
  | cons c lead ih =>
      have inner : ∀ last, lead.getLast? = some last → Text.isBarrier last = true := by
        intro last ends
        apply barrier
        cases lead with
        | nil => cases ends
        | cons d lead => exact ends
      rw [startsLine_cons]
      cases skip with
      | succ skip => exact ih inner skip _ (Nat.le_of_succ_le_succ bound)
      | zero =>
          obtain ⟨last, ends⟩ : ∃ last, (c :: lead).getLast? = some last :=
            ⟨_, List.getLast?_eq_some_getLast (List.cons_ne_nil c lead)⟩
          have read := reader.extend (c :: lead) more last ends (barrier last ends)
          rw [List.cons_append] at read
          rw [List.cons_append, findAtLines_cons, findAtLines_cons, read]
          cases atStart with
          | false => exact ih inner 0 _ (Nat.zero_le _)
          | true =>
              rw [if_pos rfl, if_pos rfl]
              cases read? (c :: lead) with
              | none => exact ih inner 0 _ (Nat.zero_le _)
              | some parts =>
                  have count : (lead ++ more).length - (parts.2 ++ more).length = lead.length - parts.2.length := by
                    rw [List.length_append, List.length_append]
                    omega
                  dsimp only [Option.map_some]
                  rw [count, ih inner _ _ (Nat.sub_le _ _), List.cons_append]

theorem findAtLines_unread {α : Type} (read? : Text → Option (α × Text)) (text : Text) (missing : read? text = none)
    (first second : Bool) : findAtLines read? 0 first text = findAtLines read? 0 second text := by
  cases text with
  | nil => rfl
  | cons c text => rw [findAtLines_cons, findAtLines_cons, missing, ite_self, ite_self]

/-- A text that is empty for a reader at the start of a line is empty for it inside one. -/
theorem findAtLines_inside {α : Type} (read? : Text → Option (α × Text)) (text : Text)
    (empty : findAtLines read? 0 true text = []) : findAtLines read? 0 false text = [] := by
  cases text with
  | nil => rfl
  | cons c text =>
      rw [findAtLines_unread read? _ _ false true]
      · exact empty
      · rw [findAtLines_cons, if_pos rfl] at empty
        cases found : read? (c :: text) with
        | none => rfl
        | some parts =>
            rw [found] at empty
            cases empty

theorem findAtLines_feed (atStart : Bool) (text : Text) :
    findAtLines namespaceAt? 0 atStart ('\n' :: text) = findAtLines namespaceAt? 0 true text := by
  have trimmed : namespaceAt? ('\n' :: text) = namespaceAt? text :=
    namespaceAt_blank ['\n'] text fun c member => by rw [List.mem_singleton.mp member]; rfl
  rw [findAtLines_cons]
  cases atStart with
  | false => rfl
  | true =>
      rw [if_pos rfl, trimmed]
      cases found : namespaceAt? text with
      | none => rfl
      | some parts =>
          cases text with
          | nil => cases found
          | cons c text =>
              obtain ⟨taken, last, whole, ends, _⟩ := namespaceAt_endsAtBarrier.takes _ parts.1 parts.2 found
              have positive := List.length_pos_iff.mpr (List.ne_nil_of_mem (List.mem_of_getLast? ends))
              have sizes := congrArg List.length whole
              rw [List.length_append, List.length_cons] at sizes
              have count : (c :: text).length - parts.2.length = text.length - parts.2.length + 1 := by
                rw [List.length_cons]
                omega
              have here : findAtLines namespaceAt? 0 true (c :: text) =
                  parts.1 :: findAtLines namespaceAt? (text.length - parts.2.length) (c == '\n') text := by
                rw [findAtLines_cons, if_pos rfl, found]
              dsimp only
              rw [here, count]
              rfl

end MemberDoc.Source
