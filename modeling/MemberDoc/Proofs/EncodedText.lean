import MemberDoc.Proofs.ByteOrder
import MemberDoc.Proofs.TextSearch

set_option autoImplicit false

/-! Texts in UTF-8. A byte below 128 is a character of its own and part of no other, so pieces of such characters are
found in the bytes of a text where they are found in the text. -/

namespace MemberDoc.Text

def isContinuation (byte : UInt8) : Bool :=
  128 ≤ byte.toNat && byte.toNat < 192

/-- The bytes behind a place. A text is cut between characters only, and not beyond its end. -/
def bytesFrom? (source : List UInt8) (place : Nat) : Option (List UInt8) :=
  if place ≤ source.length && (source.drop place).head?.all (fun byte => !isContinuation byte) then
    some (source.drop place)
  else none

def bytesBefore? (piece : List UInt8) : List UInt8 → Option Nat
  | [] => if piece = [] then some 0 else none
  | byte :: rest =>
      if piece.isPrefixOf (byte :: rest) then some 0 else (bytesBefore? piece rest).map (· + 1)

def decode? (bytes : List UInt8) : Option Text :=
  bytes.toByteArray.utf8Decode?.map Array.toList

@[simp] theorem decode_bytes (text : Text) : decode? (bytes text) = some text := by
  have decoded : (bytes text).toByteArray.utf8Decode? = some text.toArray := List.utf8Decode?_utf8Encode
  rw [decode?, decoded, Option.map_some]

@[simp] theorem bytes_append (left right : Text) : bytes (left ++ right) = bytes left ++ bytes right :=
  List.flatMap_append

@[simp, grind =] theorem length_bytes (text : Text) : (bytes text).length = byteLength text := by
  induction text with
  | nil => rfl
  | cons c text ih => rw [bytes_cons, List.length_append, String.length_utf8EncodeChar, ih, byteLength]

theorem bytes_ascii (c : Char) (small : c.toNat < 0x80) : String.utf8EncodeChar c = [c.toUInt8] := by
  have alone : following c.toNat = 0 := by
    unfold following
    rw [if_pos (by omega)]
  rw [utf8EncodeChar_eq, leadByte, alone]
  rfl

private theorem isContinuation_of_mem (count code : Nat) (byte : UInt8) (member : byte ∈ continuation count code) :
    isContinuation byte = true := by
  induction count generalizing code with
  | zero => cases member
  | succ count ih =>
      rw [continuation, List.mem_append, List.mem_singleton] at member
      rcases member with earlier | rfl
      · exact ih _ earlier
      · have value : (UInt8.ofNat (code % 64 + 128)).toNat = code % 64 + 128 :=
          UInt8.toNat_ofNat_of_lt' (show _ < 256 by omega)
        simp only [isContinuation, value, Bool.and_eq_true, decide_eq_true_eq]
        omega

theorem bytes_wide (c : Char) (wide : ¬ c.toNat < 0x80) :
    ∃ first rest, String.utf8EncodeChar c = first :: rest ∧ 192 ≤ first.toNat ∧
      ∀ byte ∈ rest, isContinuation byte = true := by
  have small := leadByte_lt c.toNat (toNat_lt c)
  refine ⟨_, _, utf8EncodeChar_eq c, ?_, fun byte member => isContinuation_of_mem _ _ byte member⟩
  rw [UInt8.toNat_ofNat_of_lt' small, leadByte]
  rcases following_cases c.toNat with ⟨_, below⟩ | ⟨width, _⟩ | ⟨width, _⟩ | ⟨width, _⟩
  · omega
  all_goals
    rw [width]
    simp only [leadMark]
    omega

theorem high_of_wide (c : Char) (wide : ¬ c.toNat < 0x80) (byte : UInt8) (member : byte ∈ String.utf8EncodeChar c) :
    128 ≤ byte.toNat := by
  obtain ⟨first, rest, encoded, lead, continued⟩ := bytes_wide c wide
  rw [encoded, List.mem_cons] at member
  rcases member with rfl | later
  · omega
  · have high := continued byte later
    simp only [isContinuation, Bool.and_eq_true, decide_eq_true_eq] at high
    exact high.1

theorem toNat_ascii (c : Char) (small : c.toNat < 0x80) : c.toUInt8.toNat = c.toNat :=
  UInt8.toNat_ofNat_of_lt' (Nat.lt_trans small (by decide))

/-- A small character has its own byte, which stands in no other character. -/
theorem mem_bytes_iff (c d : Char) (small : d.toNat < 0x80) : d.toUInt8 ∈ String.utf8EncodeChar c ↔ c = d := by
  constructor
  · intro member
    by_cases own : c.toNat < 0x80
    · rw [bytes_ascii c own, List.mem_singleton] at member
      have same := congrArg UInt8.toNat member
      rw [toNat_ascii c own, toNat_ascii d small] at same
      exact (Char.toNat_inj.mp same).symm
    · have high := high_of_wide c own _ member
      rw [toNat_ascii d small] at high
      omega
  · rintro rfl
    rw [bytes_ascii c small]
    exact List.mem_singleton.mpr rfl

theorem toUInt8_eq_iff (c d : Char) (small : c.toNat < 0x80) (also : d.toNat < 0x80) :
    c.toUInt8 = d.toUInt8 ↔ c = d := by
  have known := mem_bytes_iff c d also
  rw [bytes_ascii c small, List.mem_singleton] at known
  exact eq_comm.trans known

theorem bytes_small (c : Char) (small : c.toNat < 0x80) (text : Text) :
    bytes (c :: text) = c.toUInt8 :: bytes text := by
  rw [bytes_cons, bytes_ascii c small, List.singleton_append]

theorem head_bytes_iff (text : Text) (d : Char) (small : d.toNat < 0x80) :
    (bytes text).head? = some d.toUInt8 ↔ text.head? = some d := by
  cases text with
  | nil => exact iff_of_false nofun nofun
  | cons c text =>
      rw [List.head?_cons, Option.some.injEq]
      constructor
      · intro first
        obtain ⟨rest, encoded⟩ : ∃ rest, String.utf8EncodeChar c = d.toUInt8 :: rest := by
          rw [bytes_cons, utf8EncodeChar_eq, List.cons_append, List.head?_cons, Option.some.injEq] at first
          rw [utf8EncodeChar_eq, first]
          exact ⟨_, rfl⟩
        exact (mem_bytes_iff c d small).mp (by rw [encoded]; exact List.mem_cons_self)
      · rintro rfl
        rw [bytes_small c small, List.head?_cons]

private theorem head_bytes (text : Text) : (bytes text).head?.all (fun byte => !isContinuation byte) = true := by
  cases text with
  | nil => rfl
  | cons c text =>
      obtain ⟨first, rest, encoded, lead⟩ : ∃ first rest, String.utf8EncodeChar c = first :: rest ∧
          (first.toNat < 128 ∨ 192 ≤ first.toNat) := by
        by_cases small : c.toNat < 0x80
        · exact ⟨_, _, bytes_ascii c small, .inl (by rw [toNat_ascii c small]; exact small)⟩
        · obtain ⟨first, rest, encoded, lead, _⟩ := bytes_wide c small
          exact ⟨first, rest, encoded, .inr lead⟩
      rw [bytes_cons, encoded, List.cons_append, List.head?_cons, Option.all_some, isContinuation, Bool.not_eq_true',
        Bool.and_eq_false_iff, decide_eq_false_iff_not, decide_eq_false_iff_not]
      omega

theorem drop_bytes (left right : Text) : (bytes (left ++ right)).drop (byteLength left) = bytes right := by
  rw [bytes_append, ← length_bytes, List.drop_left]

theorem bytesFrom_append (left right : Text) :
    bytesFrom? (bytes (left ++ right)) (byteLength left) = some (bytes right) := by
  have within : byteLength left ≤ (bytes (left ++ right)).length := by
    simp
  rw [bytesFrom?, drop_bytes, head_bytes, decide_eq_true within]
  rfl

theorem exists_of_getElem_bytes (text : Text) (place : Nat) (d : Char) (small : d.toNat < 0x80)
    (here : (bytes text)[place]? = some d.toUInt8) :
    ∃ before behind, text = before ++ d :: behind ∧ byteLength before = place := by
  induction text generalizing place with
  | nil => cases here
  | cons c text ih =>
      rw [bytes_cons, List.getElem?_append] at here
      split at here
      · rename_i within
        obtain rfl := (mem_bytes_iff c d small).mp (List.mem_of_getElem? here)
        rw [bytes_ascii c small, List.length_singleton] at within
        exact ⟨[], text, rfl, by rw [byteLength]; omega⟩
      · rename_i beyond
        obtain ⟨before, behind, rfl, size⟩ := ih _ here
        rw [String.length_utf8EncodeChar] at beyond size
        exact ⟨c :: before, behind, rfl, by rw [byteLength]; omega⟩

theorem bytes_start_iff (piece text : Text) (small : ∀ c ∈ piece, c.toNat < 0x80) :
    bytes piece <+: bytes text ↔ piece <+: text := by
  induction piece generalizing text with
  | nil => exact iff_of_true List.nil_prefix List.nil_prefix
  | cons c piece ih =>
      obtain ⟨own, others⟩ := List.forall_mem_cons.mp small
      rw [bytes_small c own]
      cases text with
      | nil =>
          refine iff_of_false (fun start => ?_) fun start => ?_
          · cases List.prefix_nil.mp start
          · cases List.prefix_nil.mp start
      | cons d text =>
          rw [List.cons_prefix_cons]
          by_cases also : d.toNat < 0x80
          · rw [bytes_small d also, List.cons_prefix_cons, ih text others, toUInt8_eq_iff c d own also]
          · obtain ⟨first, rest, encoded, lead, _⟩ := bytes_wide d also
            rw [bytes_cons, encoded, List.cons_append, List.cons_prefix_cons]
            refine iff_of_false ?_ ?_
            · rintro ⟨equal, _⟩
              rw [← equal, toNat_ascii c own] at lead
              omega
            · rintro ⟨equal, _⟩
              exact also (equal ▸ own)

private theorem bytesBefore_skip (piece lead rest : List UInt8) (first : UInt8) (starts : piece.head? = some first)
    (absent : first ∉ lead) : bytesBefore? piece (lead ++ rest) = (bytesBefore? piece rest).map (· + lead.length) := by
  induction lead with
  | nil =>
      rw [List.nil_append, List.length_nil]
      cases bytesBefore? piece rest <;> rfl
  | cons byte lead ih =>
      obtain ⟨tail, rfl⟩ := List.head?_eq_some_iff.mp starts
      have other : first ≠ byte := fun same => absent (by rw [same]; exact List.mem_cons_self)
      have notHere : (first :: tail).isPrefixOf (byte :: (lead ++ rest)) = false := by
        simp [List.isPrefixOf, other]
      rw [List.cons_append, bytesBefore?, notHere, if_neg Bool.false_ne_true,
        ih fun later => absent (List.mem_cons_of_mem byte later), Option.map_map, List.length_cons]
      rfl

/-- A piece of small characters is found in the bytes of a text where it is found in the text. -/
theorem bytesBefore_bytes (piece text : Text) (first : Char) (starts : piece.head? = some first)
    (small : ∀ c ∈ piece, c.toNat < 0x80) :
    bytesBefore? (bytes piece) (bytes text) = (splitFirst? piece text).map fun parts => byteLength parts.1 := by
  obtain ⟨tail, rfl⟩ := List.head?_eq_some_iff.mp starts
  have own := small first List.mem_cons_self
  have encoded := bytes_small first own tail
  induction text with
  | nil =>
      rw [encoded]
      rfl
  | cons c text ih =>
      have start := bytes_start_iff (first :: tail) (c :: text) small
      rw [splitFirst?]
      cases found : after? (first :: tail) (c :: text) with
      | some behind =>
          have place := (after_eq_some_iff _ _ _).mp found
          obtain ⟨byte, rest, shape⟩ : ∃ byte rest, bytes (c :: text) = byte :: rest :=
            List.exists_cons_of_ne_nil (by rw [bytes_cons, utf8EncodeChar_eq]; exact List.cons_ne_nil _ _)
          have here : (bytes (first :: tail)).isPrefixOf (byte :: rest) = true := by
            rw [List.isPrefixOf_iff_prefix, ← shape, start, place]
            exact List.prefix_append _ _
          rw [shape, bytesBefore?, here, if_pos rfl]
          rfl
      | none =>
          have absent : ¬ bytes (first :: tail) <+: bytes (c :: text) := by
            rw [start]
            rintro ⟨behind, whole⟩
            rw [(after_eq_some_iff _ _ _).mpr whole.symm] at found
            cases found
          have later : bytesBefore? (bytes (first :: tail)) (bytes (c :: text)) =
              (bytesBefore? (bytes (first :: tail)) (bytes text)).map (· + c.utf8Size) := by
            rw [bytes_cons c, ← String.length_utf8EncodeChar]
            by_cases same : c = first
            · -- The character is the first one of the piece, but what follows is something else.
              subst same
              rw [bytes_ascii c own, List.singleton_append, bytesBefore?]
              have notHere : (bytes (c :: tail)).isPrefixOf (c.toUInt8 :: bytes text) = false := by
                rw [← Bool.not_eq_true, List.isPrefixOf_iff_prefix]
                rw [bytes_cons c text, bytes_ascii c own] at absent
                exact absent
              rw [notHere, if_neg Bool.false_ne_true]
              rfl
            · exact bytesBefore_skip _ _ _ first.toUInt8 (by rw [encoded]; rfl)
                fun member => same ((mem_bytes_iff c first own).mp member)
          rw [later, ih, Option.map_map, Option.map_map]
          congr 1
          funext parts
          simp only [Function.comp_apply, byteLength]
          omega

end MemberDoc.Text
