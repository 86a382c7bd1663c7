import MemberDoc.Proofs.EncodedText
import MemberDoc.Proofs.NestedCode

set_option autoImplicit false

/-! Two counts of braces. One finds the end of a class body in the bytes of a mask and must not fall below zero, the
other one splits the body into statements and stays at zero. What the first one cuts out gives the second one no
occasion to stay. -/

namespace MemberDoc.Source

/-- The place at which all open braces are closed, or the end. There is none if a brace closes more than are open. -/
def closingBrace? : Nat → Nat → List UInt8 → Option Nat
  | _, place, [] => some place
  | depth, place, byte :: rest =>
      if byte = '\x7b'.toUInt8 then closingBrace? (depth + 1) (place + 1) rest
      else if byte = '\x7d'.toUInt8 then
        match depth with
        | 0 => none
        | 1 => some place
        | outer + 2 => closingBrace? (outer + 1) (place + 1) rest
      else closingBrace? depth (place + 1) rest

def matchingBrace? (masked : List UInt8) (place : Nat) : Option Nat :=
  closingBrace? 0 place (masked.drop place)

theorem closingBrace_cons (depth place : Nat) (byte : UInt8) (rest : List UInt8) :
    closingBrace? (depth + 1) place (byte :: rest) =
      if byte = '\x7b'.toUInt8 then closingBrace? (depth + 2) (place + 1) rest
      else if byte = '\x7d'.toUInt8 then if depth = 0 then some place else closingBrace? depth (place + 1) rest
      else closingBrace? (depth + 1) (place + 1) rest := by
  cases depth <;> rfl

/-- All braces are closed for the first time behind so many bytes, or they are not closed at all. -/
structure Closes (depth : Nat) (bytes : List UInt8) (size : Nat) : Prop where
  within : size ≤ bytes.length
  stillOpen : ∀ earlier, earlier < size →
    (bytes.take (earlier + 1)).count '\x7d'.toUInt8 < depth + (bytes.take (earlier + 1)).count '\x7b'.toUInt8
  closed : size < bytes.length →
    (bytes.take (size + 1)).count '\x7d'.toUInt8 = depth + (bytes.take (size + 1)).count '\x7b'.toUInt8

private theorem Closes.cons {depth inner size : Nat} {byte : UInt8} {rest : List UInt8} (later : Closes inner rest size)
    (change : depth + [byte].count '\x7b'.toUInt8 = inner + [byte].count '\x7d'.toUInt8) (inside : 0 < inner) :
    Closes depth (byte :: rest) (size + 1) := by
  have split (mark : UInt8) (count : Nat) :
      ((byte :: rest).take (count + 1)).count mark = [byte].count mark + (rest.take count).count mark := by
    rw [List.take_succ_cons, ← List.singleton_append, List.count_append]
  refine ⟨Nat.succ_le_succ later.within, fun earlier below => ?_, fun below => ?_⟩
  · rw [split, split]
    cases earlier with
    | zero =>
        simp only [List.take_zero, List.count_nil]
        omega
    | succ earlier =>
        have bound := later.stillOpen earlier (by omega)
        omega
  · have equal := later.closed (Nat.lt_of_succ_lt_succ below)
    rw [split, split]
    omega

private theorem closingBrace_closes (depth place : Nat) (rest : List UInt8) :
    ∃ size, closingBrace? (depth + 1) place rest = some (place + size) ∧ Closes (depth + 1) rest size := by
  induction rest generalizing depth place with
  | nil => exact ⟨0, rfl, Nat.le_refl 0, nofun, nofun⟩
  | cons byte rest ih =>
      have step (inner size : Nat) (later : Closes (inner + 1) rest size)
          (change : depth + 1 + [byte].count '\x7b'.toUInt8 = inner + 1 + [byte].count '\x7d'.toUInt8) :=
        later.cons change (Nat.succ_pos inner)
      rw [closingBrace_cons]
      by_cases opening : byte = '\x7b'.toUInt8
      · obtain ⟨size, found, closes⟩ := ih (depth + 1) (place + 1)
        refine ⟨size + 1, ?_, step (depth + 1) size closes ?_⟩
        · rw [if_pos opening, found, Nat.add_assoc, Nat.add_comm 1]
        · subst opening
          rfl
      · rw [if_neg opening]
        by_cases closing : byte = '\x7d'.toUInt8
        · rw [if_pos closing]
          subst closing
          cases depth with
          | zero => exact ⟨0, rfl, Nat.zero_le _, nofun, fun _ => rfl⟩
          | succ outer =>
              obtain ⟨size, found, closes⟩ := ih outer (place + 1)
              refine ⟨size + 1, ?_, step outer size closes rfl⟩
              rw [if_neg (Nat.succ_ne_zero outer), found, Nat.add_assoc, Nat.add_comm 1]
        · obtain ⟨size, found, closes⟩ := ih depth (place + 1)
          refine ⟨size + 1, ?_, step depth size closes ?_⟩
          · rw [if_neg closing, found, Nat.add_assoc, Nat.add_comm 1]
          · rw [List.count_eq_zero.mpr (by simpa using Ne.symm opening),
              List.count_eq_zero.mpr (by simpa using Ne.symm closing)]

/-- The braces from one place up to another one, with both, are as many opening as closing ones. -/
def Balances (masked : List UInt8) (place last : Nat) : Prop :=
  ((masked.drop place).take (last + 1 - place)).count '\x7b'.toUInt8 =
    ((masked.drop place).take (last + 1 - place)).count '\x7d'.toUInt8

/-- The first place behind a brace at which the braces balance, or the end of the text if there is none. -/
structure IsMatching (masked : List UInt8) (place result : Nat) : Prop where
  behind : place + 1 ≤ result
  within : result ≤ masked.length
  balanced : result < masked.length → Balances masked place result
  first : ∀ earlier, place < earlier → earlier < result → ¬ Balances masked place earlier

private theorem isMatching_of_closes (masked rest : List UInt8) (place size : Nat)
    (here : masked.drop place = '\x7b'.toUInt8 :: rest) (closes : Closes 1 rest size) :
    IsMatching masked place (place + 1 + size) := by
  have length := congrArg List.length here
  rw [List.length_drop, List.length_cons] at length
  have bound := closes.within
  have balances (count : Nat) : Balances masked place (place + 1 + count) ↔
      (rest.take (count + 1)).count '\x7d'.toUInt8 = 1 + (rest.take (count + 1)).count '\x7b'.toUInt8 := by
    have size : place + 1 + count + 1 - place = count + 1 + 1 := by omega
    rw [Balances, here, size, List.take_succ_cons, List.count_cons_self, List.count_cons_of_ne (by decide)]
    omega
  refine ⟨by omega, by omega, fun inside => ?_, fun earlier after before => ?_⟩
  · exact (balances size).mpr (closes.closed (by omega))
  · obtain ⟨count, rfl⟩ : ∃ count, earlier = place + 1 + count := ⟨earlier - place - 1, by omega⟩
    have more := closes.stillOpen count (by omega)
    rw [balances]
    omega

private theorem closingBrace_skip (depth place : Nat) (lead rest : List UInt8)
    (flat : ∀ byte ∈ lead, byte ≠ '\x7b'.toUInt8 ∧ byte ≠ '\x7d'.toUInt8) :
    closingBrace? (depth + 1) place (lead ++ rest) = closingBrace? (depth + 1) (place + lead.length) rest := by
  induction lead generalizing place with
  | nil => rfl
  | cons byte lead ih =>
      obtain ⟨⟨notOpen, notClose⟩, others⟩ := List.forall_mem_cons.mp flat
      rw [List.cons_append, closingBrace_cons, if_neg notOpen, if_neg notClose, ih _ others, List.length_cons,
        Nat.add_assoc, Nat.add_comm 1]

private theorem closingBrace_bytes (depth place : Nat) (tail : Text) :
    closingBrace? (depth + 1) place (Text.bytes tail) = some (place + Text.byteLength (bodyOf depth tail)) := by
  induction tail generalizing depth place with
  | nil => rfl
  | cons c tail ih =>
      rw [bodyOf_cons]
      by_cases opening : c = '\x7b'
      · subst opening
        rw [Text.bytes_small _ (by decide), closingBrace_cons, if_pos rfl, if_pos rfl, ih, Text.byteLength,
          Nat.add_assoc]
        rfl
      · rw [if_neg opening]
        by_cases closing : c = '\x7d'
        · subst closing
          rw [Text.bytes_small _ (by decide), closingBrace_cons, if_neg (by decide), if_pos rfl, if_pos rfl]
          cases depth with
          | zero => rfl
          | succ outer =>
              rw [if_neg (Nat.succ_ne_zero outer), if_neg (Nat.succ_ne_zero outer), ih, Text.byteLength, Nat.add_assoc]
              rfl
        · rw [if_neg closing, Text.bytes_cons, closingBrace_skip, ih, String.length_utf8EncodeChar, Text.byteLength,
            Nat.add_assoc]
          intro byte member
          refine ⟨?_, ?_⟩
          · rintro rfl
            exact opening ((Text.mem_bytes_iff c '\x7b' (by decide)).mp member)
          · rintro rfl
            exact closing ((Text.mem_bytes_iff c '\x7d' (by decide)).mp member)

private theorem bodyOf_start (depth : Nat) (text : Text) : bodyOf depth text <+: text := by
  rcases bodyOf_split depth text with whole | ⟨more, whole, _⟩
  · exact ⟨[], by rw [List.append_nil, ← whole]⟩
  · exact ⟨'\x7d' :: more, whole.symm⟩

private theorem braceDepth_bodyOf (depth : Nat) (text : Text) :
    ∃ inner, braceDepth? depth (bodyOf depth text) = some inner := by
  induction text generalizing depth with
  | nil => exact ⟨depth, rfl⟩
  | cons c text ih =>
      rw [bodyOf_cons]
      split
      · rename_i opening
        rw [braceDepth_cons, if_pos opening]
        exact ih _
      · rename_i notOpen
        split
        · rename_i closing
          split
          · exact ⟨depth, rfl⟩
          · rename_i inside
            rw [braceDepth_cons, if_neg notOpen, if_pos closing, if_neg inside]
            exact ih _
        · rename_i notClose
          rw [braceDepth_cons, if_neg notOpen, if_neg notClose]
          exact ih _

/-- A body that is split up to some place: its statements so far, the text of the current one and the depth of
braces there. -/
structure Splitting where
  finished : List Text
  current : Text
  depth : Nat

namespace Splitting

/-- Only outside of braces a statement goes on or ends. A closing brace there leaves the depth at zero. -/
def step (state : Splitting) (c : Char) : Splitting :=
  if c = '\x7b' then
    if state.depth = 0 then ⟨state.finished ++ [state.current], [], 1⟩ else { state with depth := state.depth + 1 }
  else if c = '\x7d' then { state with depth := state.depth - 1 }
  else if state.depth = 0 then
    if c = ';' then ⟨state.finished ++ [state.current], [], 0⟩ else { state with current := state.current ++ [c] }
  else state

def run (text : Text) : Splitting :=
  text.foldl step ⟨[], [], 0⟩

def all (state : Splitting) : List Text :=
  state.finished ++ [state.current]

theorem depth_step (state : Splitting) (c : Char) :
    (state.step c).depth =
      if c = '\x7b' then state.depth + 1 else if c = '\x7d' then state.depth - 1 else state.depth := by
  unfold step
  split
  · split
    · rename_i outside
      rw [outside]
    · rfl
  · split
    · rfl
    · split
      · rename_i outside
        split
        · exact outside.symm
        · rfl
      · rfl

private theorem depth_foldl (text : Text) (state : Splitting) (inner : Nat)
    (nested : braceDepth? state.depth text = some inner) : (text.foldl step state).depth = inner := by
  induction text generalizing state with
  | nil => exact Option.some.inj nested
  | cons c text ih =>
      rw [List.foldl_cons]
      apply ih
      rw [braceDepth_cons] at nested
      rw [depth_step]
      split
      · rename_i opening
        rw [if_pos opening] at nested
        exact nested
      · rename_i notOpen
        rw [if_neg notOpen] at nested
        split
        · rename_i closing
          rw [if_pos closing] at nested
          split at nested
          · cases nested
          · exact nested
        · rename_i notClose
          rw [if_neg notClose] at nested
          exact nested

private theorem step_inside (state : Splitting) (c : Char) (inside : state.depth ≠ 0) :
    state.step c = { state with depth := (state.step c).depth } := by
  unfold step
  rw [if_neg inside, if_neg inside]
  split
  · rfl
  · split <;> rfl

private theorem statements_inside_step (state : Splitting) (c : Char) (text : Text) (inside : state.depth ≠ 0) :
    statements state.depth (c :: text) = statements (state.step c).depth text := by
  obtain ⟨outer, deep⟩ := Nat.exists_eq_succ_of_ne_zero inside
  rw [depth_step, deep, statements]
  split
  · rfl
  · split <;> rfl

/-- A splitting goes on with the statements of the rest, the first of which belongs to the current one. -/
theorem all_foldl (text : Text) (state : Splitting) (head : Text) (tail : List Text)
    (known : statements state.depth text = head :: tail) :
    (text.foldl step state).all = state.finished ++ (state.current ++ head) :: tail := by
  induction text generalizing state head tail with
  | nil =>
      have single : statements state.depth [] = [[]] := by cases state.depth <;> rfl
      rw [single] at known
      cases known
      rw [List.append_nil]
      rfl
  | cons c text ih =>
      rw [List.foldl_cons]
      by_cases inside : state.depth = 0
      · have ended (depth : Nat) (stepped : state.step c = ⟨state.finished ++ [state.current], [], depth⟩)
            (apart : [] :: statements depth text = head :: tail) :
            (text.foldl step (state.step c)).all = state.finished ++ (state.current ++ head) :: tail := by
          obtain ⟨rfl, rfl⟩ := List.cons.inj apart
          obtain ⟨next, more, rest⟩ := statements_ne_nil depth text
          rw [stepped, ih _ next more rest, rest]
          simp
        rw [inside, statements] at known
        split at known
        · rename_i opening
          exact ended 1 (by rw [step, if_pos opening, if_pos inside]) known
        · rename_i notOpen
          split at known
          · rename_i closing
            have stepped : state.step c = { state with depth := 0 } := by
              rw [step, if_neg notOpen, if_pos closing, inside]
            rw [stepped]
            exact ih { state with depth := 0 } head tail known
          · rename_i notClose
            split at known
            · rename_i semicolon
              exact ended 0 (by rw [step, if_neg notOpen, if_neg notClose, if_pos inside, if_pos semicolon]) known
            · rename_i notEnd
              have stepped : state.step c = { state with current := state.current ++ [c] } := by
                rw [step, if_neg notOpen, if_neg notClose, if_pos inside, if_neg notEnd]
              obtain ⟨next, more, rest⟩ := statements_ne_nil 0 text
              rw [rest] at known
              obtain ⟨rfl, rfl⟩ := List.cons.inj known
              rw [stepped, ih _ next more (by rw [inside]; exact rest)]
              simp
      · rw [statements_inside_step state c text inside] at known
        rw [ih _ head tail known, step_inside state c inside]

private theorem all_run (text : Text) : (run text).all = statements 0 text := by
  obtain ⟨head, tail, known⟩ := statements_ne_nil 0 text
  rw [run, all_foldl text ⟨[], [], 0⟩ head tail known, known]
  rfl

end Splitting

/-- A body between two places of a text, in which a splitting knows how deep it is. -/
structure IsBody (masked : List UInt8) (start stop : Nat) (body : Text) : Prop where
  slice : (masked.drop start).take (stop - start) = Text.bytes body
  nested : ∀ part, part <+: body → part.count '\x7d' ≤ part.count '\x7b'
  depth : ∀ part, part <+: body → (Splitting.run part).depth = part.count '\x7b' - part.count '\x7d'
  closes : ∀ part, part ++ ['\x7d'] <+: body → 0 < (Splitting.run part).depth
  split : (Splitting.run body).all = statements 0 body

private theorem isBody_bodyOf (before tail : Text) :
    IsBody (Text.bytes (before ++ '\x7b' :: tail)) (Text.byteLength before + 1)
      (Text.byteLength before + 1 + Text.byteLength (bodyOf 0 tail)) (bodyOf 0 tail) := by
  obtain ⟨inner, known⟩ := braceDepth_bodyOf 0 tail
  have nested (part : Text) (start : part <+: bodyOf 0 tail) : part.count '\x7d' ≤ part.count '\x7b' := by
    have bound := ((braceDepth_eq_some_iff 0 inner _).mp known).1 part start
    omega
  have depth (part : Text) (start : part <+: bodyOf 0 tail) :
      (Splitting.run part).depth = part.count '\x7b' - part.count '\x7d' := by
    refine Splitting.depth_foldl part ⟨[], [], 0⟩ _ ((braceDepth_eq_some_iff 0 _ part).mpr ⟨fun other first => ?_, ?_⟩)
    · have bound := nested other (first.trans start)
      omega
    · have bound := nested part start
      omega
  refine ⟨?_, nested, depth, fun part start => ?_, Splitting.all_run _⟩
  · obtain ⟨rest, whole⟩ := bodyOf_start 0 tail
    have behind := Text.drop_bytes (before ++ ['\x7b']) tail
    rw [List.append_assoc, Text.byteLength_append] at behind
    change (Text.bytes (before ++ '\x7b' :: tail)).drop (Text.byteLength before + 1) = _ at behind
    have encoded : Text.bytes tail = Text.bytes (bodyOf 0 tail) ++ Text.bytes rest := by
      rw [← Text.bytes_append, whole]
    rw [behind, Nat.add_sub_cancel_left, ← Text.length_bytes, encoded, List.take_left]
  · -- The body closes the brace as well, so one is open before it.
    have bound := nested _ start
    rw [List.count_append, List.count_append, List.count_singleton_self,
      List.count_eq_zero.mpr (show '\x7b' ∉ ['\x7d'] by decide)] at bound
    rw [depth part ((List.prefix_append part _).trans start)]
    omega

/-- The brace that closes another one is found without counting below zero, and what stands between them is a body in
which no statement is split at a wrong depth. -/
theorem matchingBrace_isBody (masked : Text) (place : Nat)
    (brace : (Text.bytes masked)[place]? = some '\x7b'.toUInt8) :
    ∃ before tail result, masked = before ++ '\x7b' :: tail ∧ Text.byteLength before = place ∧
      matchingBrace? (Text.bytes masked) place = some result ∧ IsMatching (Text.bytes masked) place result ∧
      IsBody (Text.bytes masked) (place + 1) result (bodyOf 0 tail) := by
  obtain ⟨before, tail, rfl, rfl⟩ := Text.exists_of_getElem_bytes masked place '\x7b' (by decide) brace
  have here : (Text.bytes (before ++ '\x7b' :: tail)).drop (Text.byteLength before) =
      '\x7b'.toUInt8 :: Text.bytes tail := by
    rw [Text.drop_bytes, Text.bytes_small _ (by decide)]
  obtain ⟨size, found, closes⟩ := closingBrace_closes 0 (Text.byteLength before + 1) (Text.bytes tail)
  -- The bytes and the characters are cut at one place.
  have size_eq : size = Text.byteLength (bodyOf 0 tail) := by
    rw [closingBrace_bytes, Option.some.injEq] at found
    omega
  refine ⟨before, tail, Text.byteLength before + 1 + size, rfl, rfl, ?_, ?_, ?_⟩
  · rw [matchingBrace?, here]
    exact found
  · exact isMatching_of_closes _ _ _ _ here closes
  · rw [size_eq]
    exact isBody_bodyOf before tail

def nestedBody : Text :=
  "\u00e9 \x7b var $a; function f() \x7b if (\u00fc) \x7b \x7d \x7d ; \x7d \x7d".toList

theorem matchingBrace_isBody_nested :
    (Text.bytes nestedBody)[3]? = some '\x7b'.toUInt8 ∧
      ∃ before tail result, nestedBody = before ++ '\x7b' :: tail ∧ Text.byteLength before = 3 ∧
        matchingBrace? (Text.bytes nestedBody) 3 = some result ∧ IsMatching (Text.bytes nestedBody) 3 result ∧
        IsBody (Text.bytes nestedBody) (3 + 1) result (bodyOf 0 tail) := by
  have brace : (Text.bytes nestedBody)[3]? = some '\x7b'.toUInt8 := by decide +kernel
  exact ⟨brace, matchingBrace_isBody nestedBody 3 brace⟩

end MemberDoc.Source
