import MemberDoc.Text.Basic

set_option autoImplicit false

/-! The order of texts is the order of their bytes. In UTF-8 the first byte of a character grows with the number of
bytes that follow it, and those hold the remaining bits from the highest down, so bytes compare as characters do. -/

namespace MemberDoc.Text

def bytes (text : Text) : List UInt8 :=
  text.flatMap String.utf8EncodeChar

theorem isAtMost_total (left right : Text) : (isAtMost left right || isAtMost right left) = true := by
  induction left generalizing right with
  | nil => rfl
  | cons first lefts ih =>
      cases right with
      | nil => rfl
      | cons second rights =>
          by_cases same : first = second
          · subst same
            simp only [isAtMost, if_true]
            exact ih rights
          · have different : first.toNat ≠ second.toNat := fun equal => same (Char.toNat_inj.mp equal)
            simp only [isAtMost, same, Ne.symm same, if_false, Bool.or_eq_true, decide_eq_true_eq]
            omega

theorem isAtMost_trans (left middle right : Text) (first : isAtMost left middle = true)
    (second : isAtMost middle right = true) : isAtMost left right = true := by
  induction left generalizing middle right with
  | nil => rfl
  | cons a lefts ih =>
      cases middle with
      | nil => cases first
      | cons b middles =>
          cases right with
          | nil => cases second
          | cons c rights =>
              simp only [isAtMost] at first second ⊢
              by_cases sameFirst : a = b
              · subst sameFirst
                by_cases sameSecond : a = c
                · subst sameSecond
                  simp only [if_true] at first second ⊢
                  exact ih middles rights first second
                · simp only [sameSecond, if_false] at second ⊢
                  exact second
              · by_cases sameSecond : b = c
                · subst sameSecond
                  simp only [sameFirst, if_false] at first ⊢
                  exact first
                · simp only [sameFirst, sameSecond, if_false, decide_eq_true_eq] at first second
                  have different : a ≠ c := by
                    intro same
                    subst same
                    omega
                  simp only [different, if_false, decide_eq_true_eq]
                  omega

theorem isAtMost_antisymm (left right : Text) (first : isAtMost left right = true)
    (second : isAtMost right left = true) : left = right := by
  induction left generalizing right with
  | nil =>
      cases right with
      | nil => rfl
      | cons b rights => cases second
  | cons a lefts ih =>
      cases right with
      | nil => cases first
      | cons b rights =>
          simp only [isAtMost] at first second
          by_cases same : a = b
          · subst same
            simp only [if_true] at first second
            rw [ih rights first second]
          · simp only [same, Ne.symm same, if_false, decide_eq_true_eq] at first second
            omega

theorem ofNat_lt_ofNat {left right : Nat} (below : left < right) (small : right < 256) :
    UInt8.ofNat left < UInt8.ofNat right := by
  rw [UInt8.lt_iff_toNat_lt, UInt8.toNat_ofNat_of_lt' (Nat.lt_trans below small), UInt8.toNat_ofNat_of_lt' small]
  exact below

/-- The bytes after the first one, with six bits of the code in each. -/
def continuation : Nat → Nat → List UInt8
  | 0, _ => []
  | count + 1, code => continuation count (code / 64) ++ [UInt8.ofNat (code % 64 + 128)]

def following (code : Nat) : Nat :=
  if code ≤ 127 then 0 else if code ≤ 2047 then 1 else if code ≤ 65535 then 2 else 3

def leadMark : Nat → Nat
  | 0 => 0
  | 1 => 192
  | 2 => 224
  | _ => 240

def highBits : Nat → Nat → Nat
  | 0, code => code
  | count + 1, code => highBits count (code / 64)

def leadByte (code : Nat) : Nat :=
  highBits (following code) code + leadMark (following code)

private theorem highBits_mono (count code other : Nat) (below : code ≤ other) :
    highBits count code ≤ highBits count other := by
  induction count generalizing code other with
  | zero => exact below
  | succ count ih => exact ih _ _ (Nat.div_le_div_right below)

theorem toNat_lt (c : Char) : c.toNat < 0x110000 := by
  rcases c.valid with low | ⟨_, high⟩
  · exact Nat.lt_trans low (by decide)
  · exact high

theorem utf8EncodeChar_eq (c : Char) :
    String.utf8EncodeChar c = UInt8.ofNat (leadByte c.toNat) :: continuation (following c.toNat) c.toNat := by
  have bound := toNat_lt c
  have same : c.val.toNat = c.toNat := rfl
  unfold String.utf8EncodeChar
  simp only [same]
  generalize c.toNat = code at bound ⊢
  by_cases one : code ≤ 127
  · simp [leadByte, following, one, leadMark, highBits, continuation]
  · by_cases two : code ≤ 2047
    · have high : code / 64 % 32 = code / 64 := by omega
      simp [leadByte, following, one, two, leadMark, highBits, continuation, high]
    · by_cases three : code ≤ 65535
      · have high : code / 4096 % 16 = code / 4096 := by omega
        simp [leadByte, following, one, two, three, leadMark, highBits, continuation, high, Nat.div_div_eq_div_mul]
      · have high : code / 262144 % 8 = code / 262144 := by omega
        simp [leadByte, following, one, two, three, leadMark, highBits, continuation, high, Nat.div_div_eq_div_mul]

private theorem continuation_lt (count code other : Nat) (left right : List UInt8) (below : code < other)
    (level : highBits count code = highBits count other) :
    continuation count code ++ left < continuation count other ++ right := by
  induction count generalizing code other left right with
  | zero => exact absurd level (Nat.ne_of_lt below)
  | succ count ih =>
      rw [continuation, continuation, List.append_assoc, List.append_assoc]
      -- The last byte decides only where all bits above it agree.
      by_cases same : code / 64 = other / 64
      · rw [same]
        apply List.append_left_lt
        rw [List.singleton_append, List.singleton_append, List.cons_lt_cons_iff]
        exact Or.inl (ofNat_lt_ofNat (by omega) (by omega))
      · exact ih _ _ _ _ (by omega) level

theorem following_cases (code : Nat) :
    following code = 0 ∧ code < 0x80 ∨ following code = 1 ∧ 0x80 ≤ code ∧ code < 0x800 ∨
      following code = 2 ∧ 0x800 ≤ code ∧ code < 0x10000 ∨ following code = 3 ∧ 0x10000 ≤ code := by
  unfold following
  repeat' split
  all_goals omega

theorem leadByte_lt (code : Nat) (bound : code < 0x110000) : leadByte code < 256 := by
  unfold leadByte
  rcases following_cases code with ⟨width, _⟩ | ⟨width, _⟩ | ⟨width, _⟩ | ⟨width, _⟩
  all_goals
    rw [width]
    simp only [leadMark, highBits]
    omega

private theorem leadByte_lt_of_following (code other : Nat) (below : code < other) (bound : other < 0x110000)
    (wider : following code ≠ following other) : leadByte code < leadByte other := by
  unfold leadByte
  rcases following_cases code with ⟨width, _⟩ | ⟨width, _⟩ | ⟨width, _⟩ | ⟨width, _⟩ <;>
    rcases following_cases other with ⟨width', _⟩ | ⟨width', _⟩ | ⟨width', _⟩ | ⟨width', _⟩
  all_goals
    rw [width, width']
    simp only [leadMark, highBits]
    omega

private theorem utf8EncodeChar_lt (c d : Char) (below : c.toNat < d.toNat) (left right : List UInt8) :
    String.utf8EncodeChar c ++ left < String.utf8EncodeChar d ++ right := by
  have small := leadByte_lt d.toNat (toNat_lt d)
  rw [utf8EncodeChar_eq, utf8EncodeChar_eq, List.cons_append, List.cons_append, List.cons_lt_cons_iff]
  -- First bytes of one width compare as the highest bits do; a tie is left to the bytes behind them.
  by_cases width : following c.toNat = following d.toNat
  · rcases Nat.lt_or_eq_of_le (highBits_mono (following d.toNat) _ _ (Nat.le_of_lt below)) with lower | level
    · have lead : leadByte c.toNat < leadByte d.toNat := by
        rw [leadByte, leadByte, width]
        omega
      exact Or.inl (ofNat_lt_ofNat lead small)
    · have lead : leadByte c.toNat = leadByte d.toNat := by rw [leadByte, leadByte, width, level]
      rw [lead, width]
      exact Or.inr ⟨rfl, continuation_lt _ _ _ left right below level⟩
  · exact Or.inl (ofNat_lt_ofNat (leadByte_lt_of_following _ _ below (toNat_lt d) width) small)

@[simp] theorem bytes_cons (c : Char) (text : Text) : bytes (c :: text) = String.utf8EncodeChar c ++ bytes text :=
  List.flatMap_cons

private theorem bytes_lt_of_not_isAtMost (left right : Text) (above : isAtMost left right = false) :
    bytes right < bytes left := by
  induction left generalizing right with
  | nil => cases above
  | cons c left ih =>
      cases right with
      | nil =>
          rw [bytes_cons, utf8EncodeChar_eq]
          exact List.nil_lt_cons _ _
      | cons d right =>
          rw [bytes_cons, bytes_cons]
          by_cases same : c = d
          · subst same
            rw [isAtMost, if_pos rfl] at above
            exact List.append_left_lt (ih right above)
          · have different : c.toNat ≠ d.toNat := fun equal => same (Char.toNat_inj.mp equal)
            rw [isAtMost, if_neg same, decide_eq_false_iff_not] at above
            exact utf8EncodeChar_lt d c (by omega) _ _

theorem isAtMost_iff_bytes (left right : Text) : isAtMost left right = true ↔ bytes left ≤ bytes right := by
  constructor
  · intro below reversed
    cases back : isAtMost right left with
    | false => exact List.lt_asymm reversed (bytes_lt_of_not_isAtMost right left back)
    | true =>
        rw [isAtMost_antisymm left right below back] at reversed
        exact List.lt_irrefl _ reversed
  · intro below
    cases known : isAtMost left right with
    | true => rfl
    | false => exact absurd (bytes_lt_of_not_isAtMost left right known) below

end MemberDoc.Text
