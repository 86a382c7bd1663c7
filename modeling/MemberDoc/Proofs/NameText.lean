import MemberDoc.Proofs.Lexemes

set_option autoImplicit false

/-! Names in a text. A reader of names takes a name that is as long as it can be, so a name is read back wherever
the text behind it does not go on with a name. -/

namespace MemberDoc.Text

def IsAsciiName (name : Text) : Prop :=
  isIdentifier name = true ∧ ∀ c ∈ name, c.toNat < 0x80

instance (name : Text) : Decidable (IsAsciiName name) :=
  decidable_of_iff (isIdentifier name = true ∧ name.all (fun c => decide (c.toNat < 0x80)) = true)
    (and_congr_right fun _ => by simp only [List.all_eq_true, decide_eq_true_eq])

private theorem isNameChar_ascii (c : Char) (small : c.toNat < 0x80) (named : isNameChar c = true) :
    c.isAlphanum = true ∨ c = '_' := by
  have notLarge : ¬ 0x80 ≤ c.toNat := by omega
  simp only [isNameChar, isNameStart, Bool.or_eq_true, beq_iff_eq, decide_eq_true_eq, notLarge, or_false] at named
  simp only [Char.isAlphanum, Bool.or_eq_true]
  rcases named with (alpha | mark) | digit
  · exact .inl (.inl alpha)
  · exact .inr mark
  · exact .inl (.inr digit)

private theorem IsAsciiName.all {name : Text} (ascii : IsAsciiName name) (c : Char) (member : c ∈ name) :
    isNameChar c = true := by
  obtain ⟨identifier, _⟩ := ascii
  cases name with
  | nil => cases member
  | cons d name =>
      simp only [isIdentifier, Bool.and_eq_true, List.all_eq_true] at identifier
      rcases List.mem_cons.mp member with rfl | inside
      · simp [isNameChar, identifier.1]
      · exact identifier.2 c inside

private theorem IsAsciiName.alphanum {name : Text} (ascii : IsAsciiName name) (c : Char) (member : c ∈ name) :
    c.isAlphanum = true ∨ c = '_' :=
  isNameChar_ascii c (ascii.2 c member) (ascii.all c member)

theorem IsAsciiName.isWord {name : Text} (ascii : IsAsciiName name) (c : Char) (member : c ∈ name) :
    isWord c = true := by
  rw [Text.isWord, if_pos (ascii.2 c member)]
  rcases ascii.alphanum c member with letter | rfl
  · simp [letter]
  · rfl

theorem IsAsciiName.not_blank {name : Text} (ascii : IsAsciiName name) (c : Char) (member : c ∈ name) :
    isBlank c = false := by
  cases blank : isBlank c with
  | false => rfl
  | true =>
      have word := ascii.isWord c member
      rw [not_isWord_of_isBlank c blank] at word
      cases word

theorem IsAsciiName.cons {name : Text} (ascii : IsAsciiName name) :
    ∃ c rest, name = c :: rest ∧ isNameStart c = true := by
  obtain ⟨identifier, _⟩ := ascii
  cases name with
  | nil => cases identifier
  | cons c rest =>
      simp only [isIdentifier, Bool.and_eq_true] at identifier
      exact ⟨c, rest, rfl, identifier.1⟩

theorem IsAsciiName.ne {name : Text} (ascii : IsAsciiName name) (c d : Char) (member : c ∈ name)
    (other : Text.isWord d = false) : c ≠ d := by
  rintro rfl
  rw [ascii.isWord c member] at other
  cases other

def EndsName (text : Text) : Prop :=
  ∀ c rest, text = c :: rest → isNameChar c = false

private theorem takeWhile_endsName (name behind : Text) (named : ∀ c ∈ name, isNameChar c = true)
    (ends : EndsName behind) :
    (name ++ behind).takeWhile isNameChar = name ∧ (name ++ behind).dropWhile isNameChar = behind := by
  refine takeWhile_stops isNameChar name behind named fun c first => ?_
  obtain ⟨rest, whole⟩ := List.head?_eq_some_iff.mp first
  exact ends c rest whole

private theorem endsName_dropWhile (text : Text) : EndsName (text.dropWhile isNameChar) := by
  intro c rest whole
  have stopped := List.head?_dropWhile_not isNameChar text
  rw [whole] at stopped
  simpa using stopped

theorem name_eq_some_iff (text name behind : Text) :
    name? text = some (name, behind) ↔ text = name ++ behind ∧ isIdentifier name = true ∧ EndsName behind := by
  constructor
  · intro found
    cases text with
    | nil => cases found
    | cons c text =>
        rw [name?] at found
        split at found
        · rename_i start
          cases found
          refine ⟨by rw [List.cons_append, List.takeWhile_append_dropWhile], ?_, endsName_dropWhile text⟩
          rw [isIdentifier, start, List.all_takeWhile]
          rfl
        · cases found
  · rintro ⟨rfl, identifier, ends⟩
    cases name with
    | nil => cases identifier
    | cons c name =>
        rw [isIdentifier, Bool.and_eq_true, List.all_eq_true] at identifier
        obtain ⟨taking, dropping⟩ := takeWhile_endsName name behind identifier.2 ends
        rw [List.cons_append, name?, if_pos identifier.1, taking, dropping]

theorem IsAsciiName.name_eq {name : Text} (ascii : IsAsciiName name) (behind : Text) (ends : EndsName behind) :
    name? (name ++ behind) = some (name, behind) :=
  (name_eq_some_iff _ _ _).mpr ⟨rfl, ascii.1, ends⟩

theorem IsAsciiName.lateName_eq {name : Text} (ascii : IsAsciiName name) (behind : Text) (ends : EndsName behind) :
    lateName? (name ++ behind) = some ⟨[], name, behind⟩ := by
  have named := ascii.name_eq behind ends
  obtain ⟨c, rest, whole, _⟩ := ascii.cons
  have solid := ascii.not_blank c (by rw [whole]; exact List.mem_cons_self)
  rw [whole, List.cons_append] at named ⊢
  rw [lateName_cons, if_neg (by simp [solid]), named]
  rfl

theorem lateName_isSome (c : Char) (rest : Text) (starts : isNameStart c = true) : lateName? (c :: rest) ≠ none := by
  rw [lateName_cons]
  split
  · exact Option.some_ne_none _
  · rw [name?, if_pos starts]
    exact Option.some_ne_none _

/-- A found name starts as late as it can and is as long as it can be. -/
theorem lateName_name (text : Text) (found : SpacedName) (known : lateName? text = some found) :
    (∃ c rest, found.name = c :: rest ∧ isNameStart c = true ∧
      (isBlank c = true → lateName? (rest ++ found.after) = none)) ∧
      ∀ c, found.after.head? = some c → isNameChar c = false := by
  induction text generalizing found with
  | nil => cases known
  | cons c text ih =>
      rw [lateName_cons] at known
      split at known
      · rename_i later attempt
        split at attempt
        · cases known
          exact ih later attempt
        · cases attempt
      · rename_i attempt
        obtain ⟨⟨name, after⟩, here, same⟩ := Option.map_eq_some_iff.mp known
        cases same
        rw [name?] at here
        split at here
        · rename_i starts
          cases here
          refine ⟨⟨c, _, rfl, starts, fun blank => ?_⟩, fun d head => ?_⟩
          · rw [if_pos blank] at attempt
            dsimp only
            rw [List.takeWhile_append_dropWhile]
            exact attempt
          · have stops := List.head?_dropWhile_not isNameChar text
            rw [show (text.dropWhile isNameChar).head? = some d from head] at stops
            simpa using stops
        · cases here

theorem isNameChar_of_sameName (name short : Text) (same : sameName name short = true)
    (chars : ∀ c ∈ name, isNameChar c = true) (c : Char) (member : c ∈ short) : isNameChar c = true := by
  have lowered : lower name = lower short := by simpa [sameName] using same
  have inLower : c.toLower ∈ lower name := by
    rw [lowered]
    exact List.mem_map_of_mem member
  obtain ⟨other, inName, folded⟩ := List.mem_map.mp inLower
  rcases eq_or_isAlpha other c folded with rfl | letters
  · exact chars other inName
  · simp [isNameChar, isNameStart_of_isAlpha c letters.2]

private theorem lateName_digit (c : Char) (rest : Text) (part : isNameChar c = true)
    (notStart : isNameStart c = false) :
    lateName? (c :: rest) = none := by
  have digit : c.isDigit = true := by simpa [isNameChar, notStart] using part
  have solid : isBlank c = false := by
    by_cases blank : isBlank c = true
    · have apart := not_isWord_of_isBlank c blank
      have small : c.toNat < 0x80 := by
        simp only [isNameStart, Bool.or_eq_false_iff, decide_eq_false_iff_not] at notStart
        omega
      simp [isWord, small, Char.isAlphanum, digit] at apart
    · simpa using blank
  rw [lateName_cons, solid, if_neg (by decide), name?, if_neg (by simp [notStart])]
  rfl

/-- A name that starts with a blank goes on with a digit, or it would start later. -/
theorem lateName_blank (name short after more : Text) (same : lower name = lower short)
    (chars : ∀ d ∈ name, isNameChar d = true) (late : lateName? (name ++ after) = none) (nonempty : short ≠ []) :
    lateName? (short ++ more) = none := by
  cases short with
  | nil => exact absurd rfl nonempty
  | cons e short =>
      cases name with
      | nil => cases same
      | cons d name =>
          have notStart : isNameStart d = false := by
            by_cases starts : isNameStart d = true
            · exact absurd late (lateName_isSome d _ starts)
            · simpa using starts
          have equal : d = e := by
            rcases eq_or_isAlpha d e (List.cons.inj same).1 with equal | letters
            · exact equal
            · rw [isNameStart_of_isAlpha d letters.1] at notStart
              cases notStart
          subst equal
          exact lateName_digit d _ (chars d List.mem_cons_self) notStart

/-- A name that was found under its own spelling is found wherever it is written out. -/
theorem lateName_spelled (short rest : Text) (found : SpacedName) (known : lateName? (short ++ rest) = some found)
    (same : sameName found.name short = true) (firm : EndsFirm short) (more : Text) :
    lateName? (short ++ more) = some ⟨[], short ++ more.takeWhile isNameChar, more.dropWhile isNameChar⟩ := by
  obtain ⟨⟨c, name, spelled, starts, late⟩, _⟩ := lateName_name _ found known
  obtain ⟨_, _, _, chars⟩ := lateName_append _ found known
  have part := isNameChar_of_sameName found.name short same chars
  have lowered : lower found.name = lower short := by simpa [sameName] using same
  rw [spelled] at lowered chars
  cases short with
  | nil => cases lowered
  | cons d short =>
      obtain ⟨first, others⟩ := List.cons.inj lowered
      have startsHere : isNameStart d = true := by
        rcases eq_or_isAlpha c d first with rfl | letters
        · exact starts
        · exact isNameStart_of_isAlpha d letters.2
      have rest : ∀ e ∈ short, isNameChar e = true := fun e member => part e (List.mem_cons_of_mem d member)
      have missing : (if isBlank d = true then lateName? (short ++ more) else none) = none := by
        split
        · rename_i blank
          have sameFirst : c = d := by
            rcases eq_or_isAlpha c d first with equal | letters
            · exact equal
            · rw [isAlpha_eq_false_of_isBlank d blank] at letters
              cases letters.2
          refine lateName_blank name short found.after more others
            (fun e member => chars e (List.mem_cons_of_mem c member)) (late (by rw [sameFirst]; exact blank)) ?_
          rintro rfl
          have solid := firm d rfl
          rw [blank] at solid
          cases solid
        · rfl
      rw [List.cons_append, lateName_cons, missing, name?, if_pos startsHere, List.takeWhile_append_of_pos rest,
        List.dropWhile_append_of_pos rest]
      rfl

/-- A keyword at the start of a word is the whole word, or the word goes on. -/
theorem afterKeyword_word (word name behind rest : Text) (lower : word.all Char.isLower = true)
    (ascii : ∀ c ∈ name, c.toNat < 0x80 ∧ isWord c = true)
    (apart : ∀ c more, behind = c :: more → isWord c = false)
    (found : afterKeyword? word (name ++ behind) = some rest) :
    (Text.lower name = word ∧ rest = behind) ∨ ∃ c more, rest = c :: more ∧ isWord c = true := by
  induction word generalizing name with
  | nil =>
      cases found
      cases name with
      | nil => exact .inl ⟨rfl, rfl⟩
      | cons c name => exact .inr ⟨c, name ++ behind, rfl, (ascii c List.mem_cons_self).2⟩
  | cons expected word ih =>
      rw [List.all_cons, Bool.and_eq_true] at lower
      cases name with
      | nil =>
          rw [List.nil_append] at found
          cases behind with
          | nil => cases found
          | cons c behind =>
              rw [afterKeyword?] at found
              split at found
              · rename_i same
                have word := isWord_of_foldCase c expected lower.1 same
                rw [apart c behind rfl] at word
                cases word
              · cases found
      | cons c name =>
          rw [List.cons_append, afterKeyword?] at found
          split at found
          · rename_i same
            have small := (ascii c List.mem_cons_self).1
            have notLong : c.toNat ≠ 0x17F := by omega
            have notKelvin : c.toNat ≠ 0x212A := by omega
            rw [foldCase, if_neg notLong, if_neg notKelvin] at same
            rcases ih name lower.2 (fun d member => ascii d (List.mem_cons_of_mem c member)) found with whole | longer
            · refine .inl ⟨?_, whole.2⟩
              rw [Text.lower, List.map_cons, same]
              exact congrArg _ whole.1
            · exact .inr longer
          · cases found

theorem IsAsciiName.ascii {name : Text} (ascii : IsAsciiName name) :
    ∀ c ∈ name, c.toNat < 0x80 ∧ Text.isWord c = true :=
  fun c member => ⟨ascii.2 c member, ascii.isWord c member⟩

/-- A variable with as long a name as can be read there, before which no other variable starts. -/
structure IsFirstVariable (front name behind : Text) : Prop where
  named : isIdentifier name = true
  ends : EndsName behind
  first : ∀ earlier c rest, front ++ '$' :: (name ++ behind) = earlier ++ '$' :: c :: rest → isNameStart c = true →
    front.length ≤ earlier.length

theorem exists_name_iff (text : Text) :
    (∃ found, name? text = some found) ↔ ∃ c rest, text = c :: rest ∧ isNameStart c = true := by
  cases text with
  | nil => simp [name?]
  | cons c rest =>
      rw [name?]
      split
      · rename_i start
        exact iff_of_true ⟨_, rfl⟩ ⟨c, rest, rfl, start⟩
      · rename_i other
        constructor
        · rintro ⟨_, found⟩
          cases found
        · rintro ⟨d, more, whole, start⟩
          cases whole
          exact absurd start other

theorem dollarName_cons (c : Char) (rest : Text) :
    dollarName? (c :: rest) = ((if c = '$' then name? rest else none).map Prod.fst).or (dollarName? rest) := by
  rw [dollarName?]
  cases (if c = '$' then name? rest else none) <;> rfl

theorem dollarName_eq_some_iff (text name : Text) :
    dollarName? text = some name ↔
      ∃ front behind, text = front ++ '$' :: (name ++ behind) ∧ IsFirstVariable front name behind := by
  induction text with
  | nil => simp [dollarName?]
  | cons c text ih =>
      rw [dollarName_cons]
      -- A variable that starts here is the first one; otherwise every variable starts one character later.
      by_cases here : c = '$' ∧ ∃ found, name? text = some found
      · obtain ⟨rfl, ⟨first, behind⟩, found⟩ := here
        rw [if_pos rfl, found, Option.map_some, Option.some_or, Option.some.injEq]
        constructor
        · rintro rfl
          obtain ⟨whole, named, ends⟩ := (name_eq_some_iff _ _ _).mp found
          exact ⟨[], behind, by rw [whole]; rfl, named, ends, fun _ _ _ _ _ => Nat.zero_le _⟩
        · rintro ⟨front, rest, split, isFirst⟩
          obtain ⟨d, more, whole, start⟩ := (exists_name_iff text).mp ⟨_, found⟩
          have bound := isFirst.first [] d more (by rw [← split, whole]; rfl) start
          rw [List.eq_nil_of_length_eq_zero (Nat.le_zero.mp bound)] at split
          have again := (name_eq_some_iff text name rest).mpr ⟨(List.cons.inj split).2, isFirst.named, isFirst.ends⟩
          rw [found, Option.some.injEq, Prod.mk.injEq] at again
          exact again.1
      · have nothing : (if c = '$' then name? text else none) = none := by
          split
          · rename_i sign
            exact Option.eq_none_iff_forall_ne_some.mpr fun found known => here ⟨sign, found, known⟩
          · rfl
        rw [nothing, Option.map_none, Option.none_or, ih]
        constructor
        · rintro ⟨front, behind, rfl, isFirst⟩
          refine ⟨c :: front, behind, rfl, isFirst.named, isFirst.ends, fun earlier d rest split start => ?_⟩
          cases earlier with
          | nil =>
              obtain ⟨sign, whole⟩ := List.cons.inj split
              exact absurd ⟨sign, (exists_name_iff _).mpr ⟨d, rest, whole, start⟩⟩ here
          | cons e earlier => exact Nat.succ_le_succ (isFirst.first earlier d rest (List.cons.inj split).2 start)
        · rintro ⟨front, behind, split, isFirst⟩
          cases front with
          | nil =>
              obtain ⟨sign, whole⟩ := List.cons.inj split
              exact absurd ⟨sign, _, (name_eq_some_iff _ _ _).mpr ⟨whole, isFirst.named, isFirst.ends⟩⟩ here
          | cons e front =>
              refine ⟨front, behind, (List.cons.inj split).2, isFirst.named, isFirst.ends, ?_⟩
              intro earlier d rest whole start
              exact Nat.le_of_succ_le_succ (isFirst.first (e :: earlier) d rest (congrArg (e :: ·) whole) start)

end MemberDoc.Text
