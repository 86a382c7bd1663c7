import MemberDoc.Proofs.Lexemes
import MemberDoc.Source.Members

set_option autoImplicit false

/-! Class bodies put together from parts. A part that leaves no brace and no statement open declares
the same members whatever follows it. -/

namespace MemberDoc.Source

/-- The number of open braces behind a text, unless it closes more than are open. -/
def braceDepth? (depth : Nat) : Text → Option Nat
  | [] => some depth
  | c :: rest =>
      if c = '\x7b' then braceDepth? (depth + 1) rest
      else if c = '\x7d' then
        match depth with
        | 0 => none
        | outer + 1 => braceDepth? outer rest
      else braceDepth? depth rest

theorem braceDepth_cons (depth : Nat) (c : Char) (rest : Text) :
    braceDepth? depth (c :: rest) =
      if c = '\x7b' then braceDepth? (depth + 1) rest
      else if c = '\x7d' then if depth = 0 then none else braceDepth? (depth - 1) rest
      else braceDepth? depth rest := by
  cases depth <;> rfl

theorem bodyOf_cons (depth : Nat) (c : Char) (rest : Text) :
    bodyOf depth (c :: rest) =
      if c = '\x7b' then c :: bodyOf (depth + 1) rest
      else if c = '\x7d' then if depth = 0 then [] else c :: bodyOf (depth - 1) rest
      else c :: bodyOf depth rest := by
  cases depth <;> rfl

theorem braceDepth_append (depth : Nat) (left right : Text) :
    braceDepth? depth (left ++ right) = (braceDepth? depth left).bind fun inner => braceDepth? inner right := by
  induction left generalizing depth with
  | nil => rfl
  | cons c left ih =>
      rw [List.cons_append, braceDepth_cons, braceDepth_cons]
      split
      · exact ih (depth + 1)
      · split
        · split
          · rfl
          · exact ih (depth - 1)
        · exact ih depth

theorem braceDepth_inner (depth inner : Nat) (left right : Text) (nested : braceDepth? depth left = some inner) :
    braceDepth? depth (left ++ right) = braceDepth? inner right := by
  rw [braceDepth_append, nested]
  rfl

def HasNoBrace (text : Text) : Prop :=
  ∀ c ∈ text, c ≠ '\x7b' ∧ c ≠ '\x7d'

theorem braceDepth_flat (depth : Nat) (text : Text) (flat : HasNoBrace text) :
    braceDepth? depth text = some depth := by
  induction text with
  | nil => rfl
  | cons c text ih =>
      obtain ⟨notOpen, notClose⟩ := flat c List.mem_cons_self
      rw [braceDepth_cons, if_neg notOpen, if_neg notClose]
      exact ih fun d member => flat d (List.mem_cons_of_mem c member)

theorem bodyOf_append (depth inner : Nat) (text more : Text) (nested : braceDepth? depth text = some inner) :
    bodyOf depth (text ++ more) = text ++ bodyOf inner more := by
  induction text generalizing depth with
  | nil =>
      cases nested
      rfl
  | cons c text ih =>
      rw [braceDepth_cons] at nested
      rw [List.cons_append, bodyOf_cons]
      split at nested
      · rename_i opening
        rw [if_pos opening, ih _ nested]
        rfl
      · rename_i notOpen
        rw [if_neg notOpen]
        split at nested
        · rename_i closing
          rw [if_pos closing]
          split at nested
          · cases nested
          · rename_i inside
            rw [if_neg inside, ih _ nested]
            rfl
        · rename_i notClose
          rw [if_neg notClose, ih _ nested]
          rfl

theorem bodyOf_split (depth : Nat) (text : Text) :
    text = bodyOf depth text ∨
      ∃ more, text = bodyOf depth text ++ '\x7d' :: more ∧ braceDepth? depth (bodyOf depth text) = some 0 := by
  induction text generalizing depth with
  | nil => exact .inl rfl
  | cons c text ih =>
      rw [bodyOf_cons]
      split
      · rename_i opening
        rcases ih (depth + 1) with whole | ⟨more, place, nested⟩
        · exact .inl (by rw [← whole])
        · refine .inr ⟨more, by rw [List.cons_append, ← place], ?_⟩
          rw [braceDepth_cons, if_pos opening, nested]
      · rename_i notOpen
        split
        · rename_i closing
          split
          · rename_i outside
            exact .inr ⟨text, by rw [closing]; rfl, by rw [outside]; rfl⟩
          · rename_i inside
            rcases ih (depth - 1) with whole | ⟨more, place, nested⟩
            · exact .inl (by rw [← whole])
            · refine .inr ⟨more, by rw [List.cons_append, ← place], ?_⟩
              rw [braceDepth_cons, if_neg notOpen, if_pos closing, if_neg inside, nested]
        · rename_i notClose
          rcases ih depth with whole | ⟨more, place, nested⟩
          · exact .inl (by rw [← whole])
          · refine .inr ⟨more, by rw [List.cons_append, ← place], ?_⟩
            rw [braceDepth_cons, if_neg notOpen, if_neg notClose, nested]

/-- What one character does to the statements: it is passed over, it ends one, or it belongs to the first one. -/
inductive StatementStep (depth : Nat) (c : Char) (next : Nat) : Prop where
  | passed (step : ∀ rest, statements depth (c :: rest) = statements next rest)
  | ended (step : ∀ rest, statements depth (c :: rest) = [] :: statements next rest)
  | taken (step : ∀ rest, statements depth (c :: rest) = Text.consHead c (statements next rest))

theorem statementStep (depth : Nat) (c : Char) :
    ∃ next, StatementStep depth c next ∧
      ∀ text inner, braceDepth? depth (c :: text) = some inner → braceDepth? next text = some inner := by
  simp only [braceDepth_cons]
  by_cases opening : c = '\x7b'
  · refine ⟨depth + 1, ?_, fun text inner nested => by rwa [if_pos opening] at nested⟩
    cases depth with
    | zero => exact .ended fun rest => if_pos opening
    | succ depth => exact .passed fun rest => if_pos opening
  · by_cases closing : c = '\x7d'
    · simp only [if_neg opening, if_pos closing]
      cases depth with
      | zero =>
          refine ⟨0, .passed fun rest => ?_, fun text inner nested => by cases nested⟩
          rw [statements, if_neg opening, if_pos closing]
      | succ depth =>
          refine ⟨depth, .passed fun rest => ?_, fun text inner nested => nested⟩
          rw [statements, if_neg opening, if_pos closing]
    · simp only [if_neg opening, if_neg closing]
      refine ⟨depth, ?_, fun text inner nested => nested⟩
      cases depth with
      | zero =>
          by_cases finished : c = ';'
          · exact .ended fun rest => by rw [statements, if_neg opening, if_neg closing, if_pos finished]
          · exact .taken fun rest => by rw [statements, if_neg opening, if_neg closing, if_neg finished]
      | succ depth => exact .passed fun rest => by rw [statements, if_neg opening, if_neg closing]

theorem statements_ne_nil (depth : Nat) (text : Text) : ∃ head tail, statements depth text = head :: tail := by
  induction text generalizing depth with
  | nil => exact ⟨[], [], by cases depth <;> rfl⟩
  | cons c text ih =>
      obtain ⟨next, step, _⟩ := statementStep depth c
      obtain ⟨head, tail, known⟩ := ih next
      cases step with
      | passed step => exact ⟨head, tail, by rw [step, known]⟩
      | ended step => exact ⟨[], head :: tail, by rw [step, known]⟩
      | taken step => exact ⟨c :: head, tail, by rw [step, known]; rfl⟩

/-- Where a text is cut, the last statement of the first part goes on with the first one of the second. -/
theorem statements_append (depth inner : Nat) (text : Text) (nested : braceDepth? depth text = some inner) :
    ∃ before last, statements depth text = before ++ [last] ∧ ∀ more head tail,
      statements inner more = head :: tail →
        statements depth (text ++ more) = before ++ (last ++ head) :: tail := by
  induction text generalizing depth with
  | nil =>
      cases nested
      exact ⟨[], [], by cases inner <;> rfl, fun more head tail known => known⟩
  | cons c text ih =>
      obtain ⟨next, step, deeper⟩ := statementStep depth c
      obtain ⟨before, last, alone, joined⟩ := ih next (deeper text inner nested)
      cases step with
      | passed step =>
          refine ⟨before, last, by rw [step, alone], fun more head tail known => ?_⟩
          rw [List.cons_append, step, joined more head tail known]
      | ended step =>
          refine ⟨[] :: before, last, by rw [step, alone]; rfl, fun more head tail known => ?_⟩
          rw [List.cons_append, step, joined more head tail known]
          rfl
      | taken step =>
          cases before with
          | nil =>
              refine ⟨[], c :: last, by rw [step, alone]; rfl, fun more head tail known => ?_⟩
              rw [List.cons_append, step, joined more head tail known]
              rfl
          | cons first before =>
              refine ⟨(c :: first) :: before, last, by rw [step, alone]; rfl, fun more head tail known => ?_⟩
              rw [List.cons_append, step, joined more head tail known]
              rfl

/-- Inside braces, and behind a semicolon or a closing brace, no statement has begun. -/
theorem getLast_statements (text : Text) (depth : Nat) (nested : braceDepth? 0 text = some depth)
    (finished : 0 < depth ∨ text.getLast? = some '\x7d' ∨ text.getLast? = some ';') :
    ∃ before, statements 0 text = before ++ [[]] := by
  generalize size : text.length = count
  induction count using Nat.strongRecOn generalizing text depth with
  | ind count ih =>
      rcases List.eq_nil_or_concat text with empty | ⟨front, c, whole⟩
      · subst empty
        cases nested
        simp at finished
      · rw [List.concat_eq_append] at whole
        subst whole
        rw [List.length_append, List.length_singleton] at size
        rw [braceDepth_append] at nested
        obtain ⟨inner, frontNested, lastNested⟩ := Option.bind_eq_some_iff.mp nested
        obtain ⟨before, last, alone, joined⟩ := statements_append 0 inner front frontNested
        cases inner with
        | zero =>
            by_cases opening : c = '\x7b'
            · subst opening
              exact ⟨before ++ [last], by rw [joined ['\x7b'] [] [[]] rfl]; simp⟩
            · rw [braceDepth_cons, if_neg opening] at lastNested
              by_cases closing : c = '\x7d'
              · rw [if_pos closing, if_pos rfl] at lastNested
                cases lastNested
              · rw [if_neg closing] at lastNested
                cases lastNested
                by_cases ended : c = ';'
                · subst ended
                  exact ⟨before ++ [last], by rw [joined [';'] [] [[]] rfl]; simp⟩
                · simp [closing, ended] at finished
        | succ inner =>
            obtain ⟨others, empty⟩ := ih front.length (by omega) front (inner + 1) frontNested
              (.inl (Nat.succ_pos inner)) rfl
            have step : statements (inner + 1) [c] = [[]] := by
              rw [statements]
              split
              · rfl
              · split
                · cases inner <;> rfl
                · rfl
            rw [alone] at empty
            obtain ⟨rfl, same⟩ := List.append_inj' empty rfl
            obtain ⟨rfl, _⟩ := List.cons.inj same
            exact ⟨before, joined [c] [] [] step⟩

inductive MemberName where
  | property (name : Text)
  | method (name : Text)

def MemberNames.Has (names : MemberNames) : MemberName → Prop
  | .property name => name ∈ names.properties
  | .method name => name ∈ names.methods

def MemberNames.ofStatement (statement : Text) : MemberNames :=
  MemberNames.addStatement ⟨[], []⟩ statement

@[simp] theorem mem_pushNew (names : List Text) (new name : Text) :
    name ∈ Text.pushNew names new ↔ name ∈ names ∨ name = new := by
  unfold Text.pushNew
  split
  · rename_i present
    rw [List.contains_iff_mem] at present
    constructor
    · exact .inl
    · rintro (old | rfl)
      · exact old
      · exact present
  · simp

@[simp] theorem mem_foldl_pushNew (names new : List Text) (name : Text) :
    name ∈ new.foldl Text.pushNew names ↔ name ∈ names ∨ name ∈ new := by
  induction new generalizing names with
  | nil => simp
  | cons first new ih =>
      rw [List.foldl_cons, ih, mem_pushNew, List.mem_cons, or_assoc]

private theorem pushNew_of_mem {names : List Text} {name : Text} (known : name ∈ names) :
    Text.pushNew names name = names := by
  rw [Text.pushNew, if_pos (List.contains_iff_mem.mpr known)]

/-- Names that are pushed one by one may be collected first. -/
theorem foldl_pushNew_foldl (names added new : List Text) :
    (new.foldl Text.pushNew added).foldl Text.pushNew names =
      new.foldl Text.pushNew (added.foldl Text.pushNew names) := by
  induction new generalizing added with
  | nil => rfl
  | cons name new ih =>
      have first : (Text.pushNew added name).foldl Text.pushNew names =
          Text.pushNew (added.foldl Text.pushNew names) name := by
        by_cases known : name ∈ added
        · rw [pushNew_of_mem known, pushNew_of_mem ((mem_foldl_pushNew names added name).mpr (.inr known))]
        · rw [Text.pushNew, if_neg fun present => known (List.contains_iff_mem.mp present), List.foldl_append]
          rfl
      rw [List.foldl_cons, List.foldl_cons, ih, first]

def MemberNames.merge (names more : MemberNames) : MemberNames :=
  ⟨more.properties.foldl Text.pushNew names.properties, more.methods.foldl Text.pushNew names.methods⟩

@[simp] theorem has_merge (names more : MemberNames) (member : MemberName) :
    (names.merge more).Has member ↔ names.Has member ∨ more.Has member := by
  cases member with
  | property name => exact mem_foldl_pushNew names.properties more.properties name
  | method name => exact mem_foldl_pushNew names.methods more.methods name

theorem merge_assoc (first second third : MemberNames) :
    (first.merge second).merge third = first.merge (second.merge third) := by
  simp only [MemberNames.merge, foldl_pushNew_foldl]

theorem addStatement_eq (names : MemberNames) (statement : Text) :
    names.addStatement statement = names.merge (MemberNames.ofStatement statement) := by
  unfold MemberNames.ofStatement MemberNames.addStatement MemberNames.merge
  dsimp only
  generalize stripAttributes none statement = bare
  cases function? none bare with
  | some found =>
      obtain ⟨name, after⟩ := found
      dsimp only
      rw [foldl_pushNew_foldl]
      rfl
  | none =>
      dsimp only
      generalize (startsWithWord propertyWords bare && !hasConst none bare) = declares
      cases declares with
      | true => simp only [if_true, foldl_pushNew_foldl, List.foldl_nil]
      | false => rfl

theorem foldl_addStatement (names : MemberNames) (parts : List Text) :
    parts.foldl MemberNames.addStatement names = names.merge (parts.foldl MemberNames.addStatement ⟨[], []⟩) := by
  induction parts generalizing names with
  | nil => rfl
  | cons part parts ih =>
      rw [List.foldl_cons, List.foldl_cons, ih, ih (MemberNames.addStatement ⟨[], []⟩ part), addStatement_eq names,
        merge_assoc]
      rfl

theorem merge_memberNames (text : Text) : MemberNames.merge ⟨[], []⟩ (memberNames text) = memberNames text :=
  (foldl_addStatement ⟨[], []⟩ (statements 0 text)).symm

private theorem stripAttributes_blank (pad text : Text) (blank : ∀ c ∈ pad, Text.isBlank c = true) :
    stripAttributes none (pad ++ text) = stripAttributes none text := by
  induction pad with
  | nil => rfl
  | cons c pad ih =>
      rw [List.cons_append, stripAttributes]
      simp only [blank c List.mem_cons_self, if_true]
      exact ih fun d member => blank d (List.mem_cons_of_mem c member)

theorem ofStatement_pad (pad text : Text) (blank : ∀ c ∈ pad, Text.isBlank c = true) :
    MemberNames.ofStatement (pad ++ text) = MemberNames.ofStatement text := by
  unfold MemberNames.ofStatement MemberNames.addStatement
  rw [stripAttributes_blank pad text blank]

theorem ofStatement_blank (text : Text) (blank : ∀ c ∈ text, Text.isBlank c = true) :
    MemberNames.ofStatement text = ⟨[], []⟩ := by
  have empty := ofStatement_pad text [] blank
  rw [List.append_nil] at empty
  rw [empty]
  rfl

/-- A part of a body behind which a new statement begins outside all braces. -/
structure IsComplete (text : Text) : Prop where
  closed : braceDepth? 0 text = some 0
  finished : ∃ before last, statements 0 text = before ++ [last] ∧ ∀ c ∈ last, Text.isBlank c = true

theorem IsComplete.split {text : Text} (complete : IsComplete text) (more : Text) :
    ∃ before last head tail, statements 0 text = before ++ [last] ∧ (∀ c ∈ last, Text.isBlank c = true) ∧
      statements 0 more = head :: tail ∧ statements 0 (text ++ more) = before ++ (last ++ head) :: tail := by
  obtain ⟨before, last, alone, joined⟩ := statements_append 0 0 text complete.closed
  obtain ⟨head, tail, known⟩ := statements_ne_nil 0 more
  obtain ⟨others, blank, same, spaces⟩ := complete.finished
  rw [alone] at same
  obtain ⟨_, ends⟩ := List.append_inj' same rfl
  obtain ⟨rfl, _⟩ := List.cons.inj ends
  exact ⟨before, last, head, tail, alone, spaces, known, joined more head tail known⟩

theorem IsComplete.memberNames_append {text : Text} (complete : IsComplete text) (more : Text) :
    memberNames (text ++ more) = (memberNames text).merge (memberNames more) := by
  obtain ⟨before, last, head, tail, first, blank, second, joined⟩ := complete.split more
  have padded (names : MemberNames) : names.addStatement (last ++ head) = names.addStatement head := by
    rw [addStatement_eq, addStatement_eq, ofStatement_pad last head blank]
  have skipped (names : MemberNames) : names.addStatement last = names := by
    rw [addStatement_eq, ofStatement_blank last blank]
    rfl
  unfold memberNames
  rw [first, second, joined, ← foldl_addStatement, List.foldl_append, List.foldl_append, List.foldl_cons,
    List.foldl_cons, List.foldl_cons, List.foldl_nil, padded, skipped]

theorem IsComplete.has_append {text : Text} (complete : IsComplete text) (more : Text) (member : MemberName) :
    (memberNames (text ++ more)).Has member ↔ (memberNames text).Has member ∨ (memberNames more).Has member := by
  rw [complete.memberNames_append, has_merge]

theorem IsComplete.append {left right : Text} (first : IsComplete left) (second : IsComplete right) :
    IsComplete (left ++ right) := by
  obtain ⟨before, last, head, tail, _, blank, known, joined⟩ := first.split right
  obtain ⟨others, ending, same, spaces⟩ := second.finished
  refine ⟨by rw [braceDepth_inner 0 0 left right first.closed, second.closed], ?_⟩
  rw [known] at same
  cases others with
  | nil =>
      obtain ⟨rfl, rfl⟩ := List.cons.inj same
      refine ⟨before, last ++ head, joined, fun c member => ?_⟩
      rcases List.mem_append.mp member with inside | inside
      · exact blank c inside
      · exact spaces c inside
  | cons other others =>
      obtain ⟨rfl, rfl⟩ := List.cons.inj same
      exact ⟨before ++ (last ++ head) :: others, ending, by rw [joined]; simp, spaces⟩

theorem statements_plain (text : Text) (plain : ∀ c ∈ text, c ≠ '\x7b' ∧ c ≠ '\x7d' ∧ c ≠ ';') :
    statements 0 text = [text] := by
  induction text with
  | nil => rfl
  | cons c text ih =>
      obtain ⟨notOpen, notClose, notOver⟩ := plain c List.mem_cons_self
      rw [statements, if_neg notOpen, if_neg notClose, if_neg notOver,
        ih fun d member => plain d (List.mem_cons_of_mem c member)]
      rfl

theorem braceDepth_shift (depth inner : Nat) (text : Text) (nested : braceDepth? depth text = some inner) :
    braceDepth? (depth + 1) text = some (inner + 1) := by
  induction text generalizing depth with
  | nil =>
      cases nested
      rfl
  | cons c text ih =>
      rw [braceDepth_cons] at nested ⊢
      split
      · rename_i opening
        rw [if_pos opening] at nested
        exact ih _ nested
      · rename_i notOpen
        rw [if_neg notOpen] at nested
        split
        · rename_i closing
          rw [if_pos closing] at nested
          rw [if_neg (Nat.succ_ne_zero depth)]
          split at nested
          · cases nested
          · rename_i inside
            have deeper := ih _ nested
            have same : depth - 1 + 1 = depth + 1 - 1 := by omega
            rw [same] at deeper
            exact deeper
        · rename_i notClose
          rw [if_neg notClose] at nested
          exact ih _ nested

theorem statements_inside (depth inner : Nat) (text more : Text) (nested : braceDepth? depth text = some inner) :
    statements (depth + 1) (text ++ more) = statements (inner + 1) more := by
  induction text generalizing depth with
  | nil =>
      cases nested
      rfl
  | cons c text ih =>
      rw [braceDepth_cons] at nested
      rw [List.cons_append, statements]
      split at nested
      · rename_i opening
        rw [if_pos opening]
        exact ih _ nested
      · rename_i notOpen
        rw [if_neg notOpen]
        split at nested
        · rename_i closing
          rw [if_pos closing]
          split at nested
          · cases nested
          · rename_i inside
            have deeper := ih _ nested
            rw [Nat.sub_add_cancel (Nat.pos_of_ne_zero inside)] at deeper
            exact deeper
        · rename_i notClose
          rw [if_neg notClose]
          exact ih _ nested

theorem statements_semicolon (text : Text) (plain : ∀ c ∈ text, c ≠ '\x7b' ∧ c ≠ '\x7d' ∧ c ≠ ';') :
    statements 0 (text ++ [';']) = [text, []] := by
  have flat : HasNoBrace text := fun c member => ⟨(plain c member).1, (plain c member).2.1⟩
  obtain ⟨before, last, alone, joined⟩ := statements_append 0 0 text (braceDepth_flat 0 text flat)
  rw [statements_plain text plain] at alone
  obtain ⟨rfl, same⟩ := List.append_inj' (show [] ++ [text] = before ++ [last] from alone) rfl
  obtain ⟨rfl, _⟩ := List.cons.inj same
  rw [joined [';'] [] [[]] rfl, List.append_nil]
  rfl

/-- A statement ends at an opening brace, and what stands inside braces is passed over. -/
theorem statements_braced (text inner : Text) (plain : ∀ c ∈ text, c ≠ '\x7b' ∧ c ≠ '\x7d' ∧ c ≠ ';')
    (nested : braceDepth? 0 inner = some 0) :
    statements 0 (text ++ '\x7b' :: (inner ++ ['\x7d'])) = [text, []] := by
  have flat : HasNoBrace text := fun c member => ⟨(plain c member).1, (plain c member).2.1⟩
  have braced : statements 0 ('\x7b' :: (inner ++ ['\x7d'])) = [[], []] := by
    rw [statements, if_pos rfl, statements_inside 0 0 inner _ nested]
    rfl
  obtain ⟨before, last, alone, joined⟩ := statements_append 0 0 text (braceDepth_flat 0 text flat)
  rw [statements_plain text plain] at alone
  obtain ⟨rfl, same⟩ := List.append_inj' (show [] ++ [text] = before ++ [last] from alone) rfl
  obtain ⟨rfl, _⟩ := List.cons.inj same
  rw [joined _ _ _ braced, List.append_nil]
  rfl

theorem plain_of_blank (text : Text) (blank : ∀ c ∈ text, Text.isBlank c = true) :
    ∀ c ∈ text, c ≠ '\x7b' ∧ c ≠ '\x7d' ∧ c ≠ ';' := by
  intro c member
  have space := blank c member
  refine ⟨?_, ?_, ?_⟩ <;> rintro rfl <;> cases space

theorem isComplete_blank (text : Text) (blank : ∀ c ∈ text, Text.isBlank c = true) : IsComplete text := by
  have plain := plain_of_blank text blank
  refine ⟨braceDepth_flat 0 text fun c member => ⟨(plain c member).1, (plain c member).2.1⟩, [], text, ?_, blank⟩
  exact statements_plain text plain

theorem memberNames_blank (text : Text) (blank : ∀ c ∈ text, Text.isBlank c = true) :
    memberNames text = ⟨[], []⟩ := by
  unfold memberNames
  rw [statements_plain text (plain_of_blank text blank)]
  exact ofStatement_blank text blank

theorem not_has_memberNames_blank (text : Text) (blank : ∀ c ∈ text, Text.isBlank c = true) (member : MemberName) :
    ¬ (memberNames text).Has member := by
  rw [memberNames_blank text blank]
  cases member <;> exact List.not_mem_nil

/-- A text that ends with a semicolon or a closing brace outside all braces is complete. -/
theorem isComplete_of_getLast (text : Text) (closed : braceDepth? 0 text = some 0)
    (finished : text.getLast? = some '\x7d' ∨ text.getLast? = some ';') : IsComplete text := by
  obtain ⟨before, ended⟩ := getLast_statements text 0 closed (.inr finished)
  exact ⟨closed, before, [], ended, fun c member => absurd member List.not_mem_nil⟩

theorem isComplete_of_trim (text : Text) (closed : braceDepth? 0 text = some 0)
    (finished : Text.trim text = [] ∨ Text.endsWith [';'] (Text.trim text) = true ∨
      Text.endsWith ['\x7d'] (Text.trim text) = true) : IsComplete text := by
  obtain ⟨front, behind, whole, before, after⟩ := Text.trim_split text
  have ended (c : Char) (mark : c = '\x7d' ∨ c = ';') (ends : Text.endsWith [c] (Text.trim text) = true) :
      IsComplete text := by
    obtain ⟨core, same⟩ := Text.getLast_of_endsWith c _ ends
    rw [same, ← List.append_assoc] at whole
    have plain := plain_of_blank behind after
    have flat : HasNoBrace behind := fun d member => ⟨(plain d member).1, (plain d member).2.1⟩
    rw [whole] at closed ⊢
    rw [braceDepth_append] at closed
    obtain ⟨depth, inner, last⟩ := Option.bind_eq_some_iff.mp closed
    rw [braceDepth_flat depth behind flat] at last
    cases last
    refine (isComplete_of_getLast _ inner ?_).append (isComplete_blank behind after)
    rw [List.getLast?_append]
    rcases mark with rfl | rfl
    · exact .inl rfl
    · exact .inr rfl
  rcases finished with empty | semicolon | brace
  · rw [whole, empty, List.append_nil]
    exact (isComplete_blank front before).append (isComplete_blank behind after)
  · exact ended ';' (.inr rfl) semicolon
  · exact ended '\x7d' (.inl rfl) brace

private theorem braceDepth_balanced (depth : Nat) (text : Text) (balanced : braceDepth? 0 text = some 0) :
    braceDepth? depth text = some depth := by
  induction depth with
  | zero => exact balanced
  | succ depth ih => exact braceDepth_shift depth depth text ih

private theorem bodyOf_closed (depth : Nat) (text more : Text) (closing : braceDepth? depth text = none) :
    bodyOf depth (text ++ more) = bodyOf depth text ∧ (bodyOf depth text).length < text.length := by
  induction text generalizing depth with
  | nil => cases closing
  | cons c text ih =>
      rw [braceDepth_cons] at closing
      rw [List.cons_append, bodyOf_cons, bodyOf_cons]
      have step (inner : Nat) (deeper : braceDepth? inner text = none) :
          c :: bodyOf inner (text ++ more) = c :: bodyOf inner text ∧
            (c :: bodyOf inner text).length < (c :: text).length := by
        obtain ⟨same, shorter⟩ := ih inner deeper
        rw [same, List.length_cons, List.length_cons]
        exact ⟨rfl, Nat.succ_lt_succ shorter⟩
      split at closing
      · rename_i opens
        rw [if_pos opens, if_pos opens]
        exact step _ closing
      · rename_i opens
        rw [if_neg opens, if_neg opens]
        split at closing
        · rename_i closes
          rw [if_pos closes, if_pos closes]
          split at closing
          · rename_i outside
            rw [if_pos outside, if_pos outside]
            exact ⟨rfl, Nat.succ_pos _⟩
          · rename_i outside
            rw [if_neg outside, if_neg outside]
            exact step _ closing
        · rename_i closes
          rw [if_neg closes, if_neg closes]
          exact step _ closing

/-- The bodies at the start of two texts have the same statements, and one is closed if the other is. -/
structure KeepsBody (tail other : Text) : Prop where
  same : statements 0 (bodyOf 0 other) = statements 0 (bodyOf 0 tail)
  closed : bodyOf 0 other = other ↔ bodyOf 0 tail = tail

theorem KeepsBody.refl (tail : Text) : KeepsBody tail tail :=
  ⟨rfl, Iff.rfl⟩

private theorem KeepsBody.symm {tail other : Text} (keeps : KeepsBody tail other) : KeepsBody other tail :=
  ⟨keeps.same.symm, keeps.closed.symm⟩

theorem KeepsBody.trans {tail other further : Text} (first : KeepsBody tail other) (second : KeepsBody other further) :
    KeepsBody tail further :=
  ⟨second.same.trans first.same, second.closed.trans first.closed⟩

theorem KeepsBody.memberNames_eq {tail other : Text} (keeps : KeepsBody tail other) :
    memberNames (bodyOf 0 other) = memberNames (bodyOf 0 tail) := by
  unfold memberNames
  rw [keeps.same]

theorem exists_behind_body (tail : Text) (closed : bodyOf 0 tail ≠ tail) :
    ∃ more, tail = bodyOf 0 tail ++ '\x7d' :: more ∧ braceDepth? 0 (bodyOf 0 tail) = some 0 := by
  rcases bodyOf_split 0 tail with whole | split
  · exact absurd whole.symm closed
  · exact split

theorem KeepsBody.isComplete {tail other : Text} (keeps : KeepsBody tail other) (closed : bodyOf 0 tail ≠ tail)
    (complete : IsComplete (bodyOf 0 tail)) : IsComplete (bodyOf 0 other) := by
  obtain ⟨_, _, balanced⟩ := exists_behind_body other fun unclosed => closed (keeps.closed.mp unclosed)
  refine ⟨balanced, ?_⟩
  rw [keeps.same]
  exact complete.finished

/-- A balanced text inside further braces, or behind the body, does not change the body. -/
theorem keepsBody_insert (lead text rest : Text) (inside : braceDepth? 0 lead ≠ some 0)
    (balanced : braceDepth? 0 text = some 0) : KeepsBody (lead ++ rest) (lead ++ (text ++ rest)) := by
  cases depth : braceDepth? 0 lead with
  | none =>
      have shorter := (bodyOf_closed 0 lead rest depth).2
      have body (more : Text) : bodyOf 0 (lead ++ more) = bodyOf 0 lead := (bodyOf_closed 0 lead more depth).1
      have closed (more : Text) : bodyOf 0 lead ≠ lead ++ more := by
        intro same
        have sizes := congrArg List.length same
        rw [List.length_append] at sizes
        omega
      exact ⟨by rw [body, body], by rw [body, body]; exact iff_of_false (closed _) (closed _)⟩
  | some depth' =>
      cases depth' with
      | zero => exact absurd depth inside
      | succ outer =>
          have body (more : Text) : bodyOf 0 (lead ++ more) = lead ++ bodyOf (outer + 1) more :=
            bodyOf_append 0 (outer + 1) lead more depth
          have inner := bodyOf_append (outer + 1) (outer + 1) text rest (braceDepth_balanced _ text balanced)
          obtain ⟨before, last, _, joined⟩ := statements_append 0 (outer + 1) lead depth
          obtain ⟨head, others, known⟩ := statements_ne_nil (outer + 1) (bodyOf (outer + 1) rest)
          have passed := statements_inside outer outer text (bodyOf (outer + 1) rest) (braceDepth_balanced _ text balanced)
          refine ⟨?_, ?_⟩
          · rw [body, body, inner, joined _ head others known, joined _ head others (passed.trans known)]
          · rw [body, body, inner, List.append_cancel_left_eq, List.append_cancel_left_eq, List.append_cancel_left_eq]

theorem keepsBody_exchange (lead text other rest : Text) (inside : braceDepth? 0 lead ≠ some 0)
    (balanced : braceDepth? 0 text = some 0) (otherBalanced : braceDepth? 0 other = some 0) :
    KeepsBody (lead ++ (text ++ rest)) (lead ++ (other ++ rest)) :=
  (keepsBody_insert lead text rest inside balanced).symm.trans (keepsBody_insert lead other rest inside otherBalanced)

theorem braceDepth_opened (text : Text) : braceDepth? 0 (text ++ ['\x7b']) ≠ some 0 := by
  rw [braceDepth_append]
  cases braceDepth? 0 text with
  | none => exact Option.some_ne_none 0 ∘ Eq.symm
  | some depth =>
      intro same
      exact Nat.succ_ne_zero depth (Option.some.inj same)

theorem bodyOf_before_brace (body rest : Text) (balanced : braceDepth? 0 body = some 0) :
    bodyOf 0 (body ++ '\x7d' :: rest) = body := by
  rw [bodyOf_append 0 0 body _ balanced, bodyOf_cons]
  exact List.append_nil body

theorem keepsBody_behind (body rest other : Text) (balanced : braceDepth? 0 body = some 0) :
    KeepsBody (body ++ '\x7d' :: rest) (body ++ '\x7d' :: other) := by
  have ending (more : Text) := bodyOf_before_brace body more balanced
  constructor
  · rw [ending, ending]
  · rw [ending, ending]
    exact iff_of_false (by simp) (by simp)

end MemberDoc.Source
