import MemberDoc.Proofs.EncodedText
import MemberDoc.Proofs.HiddenContent

set_option autoImplicit false

/-! A scanner that masks a source byte by byte. It blanks out comments and strings in place, and it goes through
characters of several bytes without looking at them as such. -/

namespace MemberDoc.Source

/-- Bytes on the way to a mask, and the doc comments met so far, each from its first byte to the one behind it. -/
structure ByteMask where
  bytes : List UInt8
  comments : List (Nat × Nat)
  deriving DecidableEq

namespace ByteMask

def blankByte (byte : UInt8) : UInt8 :=
  if byte = '\n'.toUInt8 then byte else ' '.toUInt8

def blank? (state : ByteMask) (start stop : Nat) : Option ByteMask :=
  if start ≤ stop && stop ≤ state.bytes.length then
    some { state with
      bytes := state.bytes.take start ++ ((state.bytes.drop start).take (stop - start)).map blankByte ++
        state.bytes.drop stop }
  else none

def note (state : ByteMask) (start stop : Nat) : ByteMask :=
  { state with comments := state.comments ++ [(start, stop)] }

def pass? (state : ByteMask) (start stop next : Nat) : Option (ByteMask × Nat) :=
  (state.blank? start stop).map fun state => (state, next)

/-- Where a block comment stops and whether it is a doc comment. It goes to its first end behind the opening, or to
the end of the source. -/
def blockStop? (source : List UInt8) (place : Nat) : Option (Nat × Bool) := do
  let inner ← Text.bytesFrom? source (place + 2)
  match Text.bytesBefore? (Text.bytes ['*', '/']) inner with
  | some size =>
      let stop := place + 2 + size + 2
      return (stop, inner.head? = some '*'.toUInt8 && 5 ≤ stop - place)
  | none => return (source.length, false)

def lineStop? (source : List UInt8) (place : Nat) : Option Nat := do
  let line ← Text.bytesFrom? source place
  return ((Text.bytesBefore? (Text.bytes ['\n']) line).map (place + ·)).getD source.length

/-- The place of the quote that ends a string, or one behind all bytes. From a backslash it is two bytes to the next
place to look at, wherever that is. -/
def closingQuote (quote : UInt8) : Nat → List UInt8 → Nat
  | place, [] => place
  | place, [byte] => if byte = quote then place else if byte = '\\'.toUInt8 then place + 2 else place + 1
  | place, byte :: next :: rest =>
      if byte = quote then place
      else if byte = '\\'.toUInt8 then closingQuote quote (place + 2) rest
      else closingQuote quote (place + 1) (next :: rest)

/-- What is done with a byte and the bytes behind it, and where to go on. -/
def round? (source : List UInt8) (state : ByteMask) (place : Nat) (byte : UInt8) (rest : List UInt8) :
    Option (ByteMask × Nat) :=
  if byte = '/'.toUInt8 && rest.head? = some '*'.toUInt8 then
    (blockStop? source place).bind fun (stop, isDoc) =>
      (if isDoc then state.note place stop else state).pass? place stop stop
  else if byte = '/'.toUInt8 && rest.head? = some '/'.toUInt8 ||
      byte = '#'.toUInt8 && rest.head? ≠ some '['.toUInt8 then
    (lineStop? source place).bind fun stop => state.pass? place stop stop
  else if byte = '\x22'.toUInt8 || byte = '\x27'.toUInt8 then
    let stop := min (closingQuote byte (place + 1) rest) source.length
    state.pass? (place + 1) stop (stop + 1)
  else some (state, place + 1)

/-- Rounds up to the end of the source, at most as many as the fuel allows. -/
def rounds? (source : List UInt8) : Nat → ByteMask → Nat → Option ByteMask
  | 0, _, _ => none
  | fuel + 1, state, place =>
      match source.drop place with
      | [] => some state
      | byte :: rest => (round? source state place byte rest).bind fun next => rounds? source fuel next.1 next.2

end ByteMask

/-- The mask of a source and the places of its doc comments, from the bytes of the source. There is none if a cut is
made inside of a character or beyond the end, if the rounds do not come to an end, or if the bytes that they leave
are no text. -/
def maskBytes? (source : List UInt8) : Option (Text × List (Nat × Nat)) := do
  let state ← ByteMask.rounds? source (source.length + 1) ⟨source, []⟩ 0
  let text ← Text.decode? state.bytes
  return (text, state.comments)

namespace ByteMask

@[simp] theorem map_blankByte (text : Text) : (Text.bytes text).map blankByte = Text.bytes (hide text) := by
  induction text with
  | nil => rfl
  | cons c text ih =>
      rw [Text.bytes_cons, List.map_append, ih, hide_cons, Text.bytes_append]
      congr 1
      by_cases feed : c = '\n'
      · subst feed
        decide
      · -- No byte of another character is a line feed.
        have spaces (count : Nat) : Text.bytes (List.replicate count ' ') = List.replicate count ' '.toUInt8 := by
          induction count with
          | zero => rfl
          | succ count ih => rw [List.replicate_succ, Text.bytes_small ' ' (by decide), ih, List.replicate_succ]
        rw [blankOut, if_neg feed, spaces, ← String.length_utf8EncodeChar c, ← List.map_const']
        refine List.map_congr_left fun byte member => if_neg ?_
        rintro rfl
        exact feed ((Text.mem_bytes_iff c '\n' (by decide)).mp member)

private theorem blank_hidden (before segment rest : Text) (comments : List (Nat × Nat)) :
    (ByteMask.mk (Text.bytes (before ++ (segment ++ rest))) comments).blank? (Text.byteLength before)
        (Text.byteLength before + Text.byteLength segment) =
      some ⟨Text.bytes (before ++ (hide segment ++ rest)), comments⟩ := by
  have front : (Text.bytes (before ++ (segment ++ rest))).take (Text.byteLength before) = Text.bytes before := by
    rw [Text.bytes_append, ← Text.length_bytes, List.take_left]
  have middle : (Text.bytes (segment ++ rest)).take (Text.byteLength segment) = Text.bytes segment := by
    rw [Text.bytes_append, ← Text.length_bytes, List.take_left]
  have behind : (Text.bytes (before ++ (segment ++ rest))).drop (Text.byteLength before + Text.byteLength segment) =
      Text.bytes rest := by
    rw [← List.append_assoc, ← Text.byteLength_append, Text.drop_bytes]
  have within :
      Text.byteLength before + Text.byteLength segment ≤ (Text.bytes (before ++ (segment ++ rest))).length := by
    grind
  rw [blank?, decide_eq_true (Nat.le_add_right _ _), decide_eq_true within, Bool.and_self, if_pos rfl, front, behind,
    Text.drop_bytes, Nat.add_sub_cancel_left, middle, map_blankByte, ← Text.bytes_append, ← Text.bytes_append,
    List.append_assoc]

theorem pass_hidden (before hidden segment rest : Text) (comments : List (Nat × Nat)) (next : Nat)
    (aligned : Text.byteLength hidden = Text.byteLength before) :
    (mk (Text.bytes (hidden ++ (segment ++ rest))) comments).pass? (Text.byteLength before)
        (Text.byteLength before + Text.byteLength segment) next =
      some (⟨Text.bytes (hidden ++ (hide segment ++ rest)), comments⟩, next) := by
  rw [pass?, ← aligned, blank_hidden]
  rfl

theorem quote_eq (quote : Char) (isQuoted : isQuote quote = true) : quote = '\x22' ∨ quote = '\x27' := by
  rw [isQuote, Bool.or_eq_true, beq_iff_eq, beq_iff_eq] at isQuoted
  exact isQuoted

theorem byteLength_quote (quote : Char) (isQuoted : isQuote quote = true) : Text.byteLength [quote] = 1 := by
  rcases quote_eq quote isQuoted with rfl | rfl <;> rfl

private theorem closingQuote_next (quote byte : UInt8) (place : Nat) (rest : List UInt8) (other : byte ≠ quote)
    (plain : byte ≠ '\\'.toUInt8) : closingQuote quote place (byte :: rest) = closingQuote quote (place + 1) rest := by
  cases rest with
  | nil => simp only [closingQuote, if_neg other, if_neg plain]
  | cons next rest => rw [closingQuote, if_neg other, if_neg plain]

theorem closingQuote_self (quote : UInt8) (place : Nat) (rest : List UInt8) :
    closingQuote quote place (quote :: rest) = place := by
  cases rest with
  | nil => exact if_pos rfl
  | cons next rest => exact if_pos rfl

theorem closingQuote_skip (quote : UInt8) (place : Nat) (lead rest : List UInt8)
    (other : ∀ byte ∈ lead, byte ≠ quote ∧ byte ≠ '\\'.toUInt8) :
    closingQuote quote place (lead ++ rest) = closingQuote quote (place + lead.length) rest := by
  induction lead generalizing place with
  | nil => rfl
  | cons byte lead ih =>
      obtain ⟨⟨notQuote, plain⟩, others⟩ := List.forall_mem_cons.mp other
      rw [List.cons_append, closingQuote_next _ _ _ _ notQuote plain, ih _ others, List.length_cons, Nat.add_assoc,
        Nat.add_comm 1]

theorem quote_small (quote : Char) (isQuoted : isQuote quote = true) : quote.toNat < 0x80 ∧ quote ≠ '\\' := by
  rcases quote_eq quote isQuoted with rfl | rfl <;> decide

theorem escape_ne_quote (quote : Char) (isQuoted : isQuote quote = true) : '\\'.toUInt8 ≠ quote.toUInt8 := by
  rcases quote_eq quote isQuoted with rfl | rfl <;> decide

theorem closingQuote_last (quote : Char) (isQuoted : isQuote quote = true) (place : Nat) :
    closingQuote quote.toUInt8 place (Text.bytes ['\\']) = place + 2 := by
  have other := escape_ne_quote quote isQuoted
  change (if '\\'.toUInt8 = quote.toUInt8 then place else place + 2) = place + 2
  rw [if_neg other]

/-- Two bytes behind a backslash the scanner may be inside of a character, but it meets no quote there. -/
theorem closingQuote_escape (quote c : Char) (isQuoted : isQuote quote = true) (place : Nat) (text : Text) :
    closingQuote quote.toUInt8 place (Text.bytes ('\\' :: c :: text)) =
      closingQuote quote.toUInt8 (place + Text.byteLength ['\\', c]) (Text.bytes text) := by
  have small := (quote_small quote isQuoted).1
  have other := escape_ne_quote quote isQuoted
  obtain ⟨first, rest, encoded, high⟩ : ∃ first rest, String.utf8EncodeChar c = first :: rest ∧
      ∀ byte ∈ rest, 128 ≤ byte.toNat := by
    by_cases own : c.toNat < 0x80
    · exact ⟨_, [], Text.bytes_ascii c own, nofun⟩
    · obtain ⟨first, rest, encoded, _⟩ := Text.bytes_wide c own
      refine ⟨first, rest, encoded, fun byte member => Text.high_of_wide c own byte ?_⟩
      rw [encoded]
      exact List.mem_cons_of_mem first member
  have size : Text.byteLength ['\\', c] = 2 + rest.length := by
    have width := String.length_utf8EncodeChar c
    rw [encoded, List.length_cons] at width
    have escapeSize : '\\'.utf8Size = 1 := rfl
    simp only [Text.byteLength, escapeSize]
    omega
  rw [Text.bytes_small '\\' (by decide), Text.bytes_cons, encoded, List.cons_append, closingQuote, if_neg other,
    if_pos rfl, closingQuote_skip, size, Nat.add_assoc]
  intro byte member
  have large := high byte member
  refine ⟨?_, ?_⟩
  · rintro rfl
    rw [Text.toNat_ascii quote small] at large
    omega
  · rintro rfl
    exact absurd large (by decide)

theorem closingQuote_content (quote : Char) (isQuoted : isQuote quote = true) (content rest : Text) (place : Nat)
    (stays : staysQuoted quote content = true) :
    closingQuote quote.toUInt8 place (Text.bytes (content ++ rest)) =
      closingQuote quote.toUInt8 (place + Text.byteLength content) (Text.bytes rest) := by
  fun_induction staysQuoted quote content generalizing place with
  | case1 => rfl
  | case2 => cases stays
  | case3 c content ih =>
      rw [List.cons_append, List.cons_append, closingQuote_escape quote c isQuoted, ih _ stays, Nat.add_assoc,
        ← Text.byteLength_append]
      rfl
  | case4 c content notLast notEscape ih =>
      rw [Bool.and_eq_true, bne_iff_ne] at stays
      have plain := ne_escape c content notLast notEscape
      rw [List.cons_append, Text.bytes_cons, closingQuote_skip, ih _ stays.2, String.length_utf8EncodeChar,
        Text.byteLength, Nat.add_assoc]
      intro byte member
      refine ⟨?_, ?_⟩
      · rintro rfl
        exact stays.1 ((Text.mem_bytes_iff c quote (quote_small quote isQuoted).1).mp member)
      · rintro rfl
        exact plain ((Text.mem_bytes_iff c '\\' (by decide)).mp member)

/-- The rounds from a place on come to an end with a state, with any fuel that could be enough. -/
def Runs (source : List UInt8) (state : ByteMask) (place : Nat) (final : ByteMask) : Prop :=
  ∀ fuel, source.length - place < fuel → rounds? source fuel state place = some final

theorem runs_end (source : List UInt8) (state final : ByteMask) (place : Nat) (ended : source.length ≤ place) :
    Runs source state place final ↔ state = final := by
  have nothing : source.drop place = [] := List.drop_eq_nil_iff.mpr ended
  have stops (fuel : Nat) : rounds? source (fuel + 1) state place = some state := by
    rw [rounds?, nothing]
  constructor
  · intro runs
    have last := runs 1 (by omega)
    rw [stops] at last
    exact Option.some.inj last
  · rintro rfl fuel enough
    obtain ⟨less, rfl⟩ : ∃ less, fuel = less + 1 := ⟨fuel - 1, by omega⟩
    exact stops less

theorem Runs.step {source rest : List UInt8} {byte : UInt8} {state next final : ByteMask} {place further : Nat}
    (later : Runs source next further final) (here : source.drop place = byte :: rest)
    (made : round? source state place byte rest = some (next, further)) (onward : place < further) :
    Runs source state place final := by
  intro fuel enough
  have within : place < source.length := by
    have size := congrArg List.length here
    rw [List.length_drop, List.length_cons] at size
    omega
  obtain ⟨less, rfl⟩ : ∃ less, fuel = less + 1 := ⟨fuel - 1, by omega⟩
  rw [rounds?, here]
  change (round? source state place byte rest).bind _ = _
  rw [made]
  exact later less (by omega)

/-- Bytes that belong to no small character are passed one by one. -/
theorem Runs.skip {source : List UInt8} {state final : ByteMask} (lead rest : List UInt8) (place : Nat)
    (high : ∀ byte ∈ lead, 128 ≤ byte.toNat) (here : source.drop place = lead ++ rest)
    (later : Runs source state (place + lead.length) final) : Runs source state place final := by
  induction lead generalizing place with
  | nil => exact later
  | cons byte lead ih =>
      obtain ⟨large, others⟩ := List.forall_mem_cons.mp high
      have apart (c : Char) (small : c.toUInt8.toNat < 128) : byte ≠ c.toUInt8 := by
        rintro rfl
        omega
      have made : round? source state place byte (lead ++ rest) = some (state, place + 1) := by
        simp [round?, apart '/' (by decide), apart '#' (by decide), apart '\x22' (by decide), apart '\x27' (by decide)]
      refine Runs.step (ih (place + 1) others ?_ ?_) here made (Nat.lt_succ_self place)
      · rw [← List.drop_drop, here]
        rfl
      · rw [List.length_cons] at later
        rw [Nat.add_assoc, Nat.add_comm 1]
        exact later

end ByteMask

end MemberDoc.Source
