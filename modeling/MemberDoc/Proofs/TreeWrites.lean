import MemberDoc.Project.Tree

set_option autoImplicit false

/-! Writing a document. Its path reads back the new text, whether or not the document was there before; where it was,
every path that leads elsewhere reads what it did. -/

namespace MemberDoc

theorem eq_ok_of_toOption {Fault Value : Type} {result : Except Fault Value} {value : Value}
    (known : result.toOption = some value) : result = .ok value := by
  cases result with
  | error fault => cases known
  | ok other => exact congrArg Except.ok (Option.some.inj known)

theorem lookup_filter_ne {Key Value : Type} [DecidableEq Key] [BEq Key] [LawfulBEq Key] (entries : List (Key × Value))
    (place other : Key) :
    (entries.filter (·.1 ≠ place)).lookup other = if other = place then none else entries.lookup other := by
  induction entries with
  | nil => simp
  | cons entry entries ih =>
      obtain ⟨key, value⟩ := entry
      by_cases erased : key = place
      · subst erased
        rw [List.filter_cons_of_neg (by simp), ih]
        by_cases same : other = key
        · rw [if_pos same, if_pos same]
        · rw [if_neg same, if_neg same, List.lookup_cons, beq_eq_false_iff_ne.mpr same]
      · rw [List.filter_cons_of_pos (by simpa using erased), List.lookup_cons, List.lookup_cons, ih]
        by_cases found : other = key
        · subst found
          simp [erased]
        · simp [beq_eq_false_iff_ne.mpr found]

end MemberDoc

namespace MemberDoc.Tree

theorem entry_insert (tree : Tree) (place other : List Text) (entry : Entry) (inside : place ≠ []) :
    Tree.entry? (tree.insert place entry) other = if other = place then some entry else tree.entry? other := by
  unfold entry?
  by_cases root : other = []
  · have apart : other ≠ place := fun same => inside (same.symm.trans root)
    rw [if_pos root, if_pos root, if_neg apart]
  · rw [if_neg root, if_neg root]
    change ((tree.entries.filter (·.1 ≠ place)) ++ [(place, entry)]).lookup other = _
    rw [List.lookup_append, lookup_filter_ne]
    by_cases same : other = place
    · rw [if_pos same, if_pos same, same]
      simp
    · rw [if_neg same, if_neg same, List.lookup_cons, beq_eq_false_iff_ne.mpr same]
      simp

def isFolderEntry : Entry → Bool
  | .folder => true
  | .document _ _ => false

def SameShape (left right : Tree) : Prop :=
  ∀ place, (left.entry? place).map isFolderEntry = (right.entry? place).map isFolderEntry

theorem SameShape.trans {left middle right : Tree} (first : left.SameShape middle) (second : middle.SameShape right) :
    left.SameShape right :=
  fun place => (first place).trans (second place)

theorem SameShape.symm {left right : Tree} (same : left.SameShape right) : right.SameShape left :=
  fun place => (same place).symm

/-- Paths are followed by what is a folder and what is there. -/
theorem walk_congr (left right : Tree) (same : left.SameShape right) (place segments : List Text) :
    left.walk place segments = right.walk place segments := by
  induction segments generalizing place with
  | nil => rfl
  | cons segment segments ih =>
      have there : (left.entry? (place ++ [segment])).isSome = (right.entry? (place ++ [segment])).isSome := by
        rw [← Option.isSome_map (f := isFolderEntry), same, Option.isSome_map]
      have here := same place
      rw [walk, walk, there, ih, ih, ih]
      cases atLeft : left.entry? place with
      | none =>
          rw [atLeft] at here
          cases atRight : right.entry? place with
          | none => rfl
          | some entry => simp [atRight] at here
      | some entry =>
          rw [atLeft] at here
          cases atRight : right.entry? place with
          | none => simp [atRight] at here
          | some other =>
              rw [atRight] at here
              cases entry with
              | folder =>
                  cases other with
                  | folder => rfl
                  | document contents writable => cases here
              | document contents writable =>
                  cases other with
                  | folder => cases here
                  | document others writable => rfl

theorem SameShape.locate_eq {left right : Tree} (same : left.SameShape right) (path : Path) :
    left.locate path = right.locate path := by
  unfold locate
  rw [walk_congr left right same]

theorem SameShape.target_eq {left right : Tree} (same : left.SameShape right) (path : Path) :
    left.target path = right.target path := by
  unfold target
  simp only [walk_congr left right same]

theorem sameShape_insert (tree : Tree) (place : List Text) (contents revised : Contents) (writable free : Bool)
    (known : tree.entry? place = some (.document contents writable)) :
    (tree.insert place (.document revised free)).SameShape tree := by
  have inside : place ≠ [] := by
    rintro rfl
    cases known
  intro other
  rw [tree.entry_insert place other _ inside]
  split
  · rename_i here
    rw [here, known]
    rfl
  · rfl

theorem walk_append (tree : Tree) (place left right : List Text) :
    tree.walk place (left ++ right) = (tree.walk place left).bind fun inner => tree.walk inner right := by
  induction left generalizing place with
  | nil => rfl
  | cons segment left ih =>
      rw [List.cons_append, walk, walk]
      cases tree.entry? place with
      | none => rfl
      | some entry =>
          cases entry with
          | document contents writable => rfl
          | folder =>
              dsimp only
              split
              · exact ih place
              · split
                · exact ih place.dropLast
                · split
                  · rfl
                  · split
                    · exact ih (place ++ [segment])
                    · rfl

private theorem walk_empty (tree : Tree) (place found : List Text) (followed : tree.walk place [[]] = .ok found) :
    found = place ∧ tree.entry? place = some .folder := by
  rw [walk] at followed
  cases known : tree.entry? place with
  | none => simp [known] at followed
  | some entry =>
      rw [known] at followed
      cases entry with
      | document contents writable => cases followed
      | folder =>
          simp only [Path.isRedundant, decide_true, Bool.true_or, if_true, walk] at followed
          cases followed
          exact ⟨rfl, rfl⟩

private theorem walk_last (tree : Tree) (place found : List Text) (last : Text)
    (followed : tree.walk place [last] = .ok found) (counts : Path.isRedundant last = false)
    (below : last ≠ ['.', '.']) : found = place ++ [last] := by
  rw [walk] at followed
  cases known : tree.entry? place with
  | none => simp [known] at followed
  | some entry =>
      rw [known] at followed
      cases entry with
      | document contents writable => cases followed
      | folder =>
          simp only [counts, Bool.false_eq_true, if_false, if_neg below, walk] at followed
          split at followed
          · cases followed
          · split at followed
            · cases followed
              rfl
            · cases followed

/-- No empty piece stands at the end, so nothing has been left out. -/
theorem segments_of_kept (segments above : List Text) (last : Text)
    (kept : segments.reverse.dropWhile List.isEmpty = last :: above) (full : segments.getLast? ≠ some []) :
    segments = above.reverse ++ [last] ∧ last ≠ [] := by
  have nonempty : last ≠ [] := by
    have first := List.head?_dropWhile_not List.isEmpty segments.reverse
    rw [kept] at first
    rintro rfl
    cases first
  have turned : segments.reverse = last :: above := by
    rw [← List.head?_reverse] at full
    cases pieces : segments.reverse with
    | nil =>
        rw [pieces] at kept
        cases kept
    | cons first rest =>
        rw [pieces] at full kept
        have solid : ¬ List.isEmpty first = true := by
          intro empty
          exact full (by rw [List.head?_cons, List.isEmpty_iff.mp empty])
        rw [List.dropWhile_cons_of_neg solid] at kept
        exact kept
  exact ⟨by rw [← List.reverse_reverse segments, turned, List.reverse_cons], nonempty⟩

/-- The parts of a path at which a document may be written. -/
structure Writable (tree : Tree) (path : Path) (above : List Text) (last : Text) (folder : List Text) : Prop where
  allowed : pathFault? path = none
  segments : Text.splitOn '/' path.text = above ++ [last]
  followed : tree.walk [] above = .ok folder
  isFolder : tree.entry? folder = some .folder
  counts : Path.isRedundant last = false
  below : last ≠ ['.', '.']
  short : isLongName last = false

theorem target_eq_ok (tree : Tree) (path : Path) (place : List Text) (targeted : tree.target path = .ok place) :
    ∃ above last folder, Writable tree path above last folder ∧ place = folder ++ [last] := by
  unfold target at targeted
  cases fault : pathFault? path with
  | some error =>
      rw [fault] at targeted
      cases targeted
  | none =>
      rw [fault] at targeted
      simp only [bind, Except.bind] at targeted
      generalize pieces : Text.splitOn '/' path.text = segments at targeted
      cases kept : segments.reverse.dropWhile List.isEmpty with
      | nil =>
          rw [kept] at targeted
          cases targeted
      | cons last above =>
          rw [kept] at targeted
          dsimp only at targeted
          cases followed : tree.walk [] (above.reverse ++ [[]]) with
          | error cause =>
              rw [followed] at targeted
              cases targeted
          | ok inner =>
              rw [followed] at targeted
              dsimp only at targeted
              split at targeted
              · split at targeted <;> cases targeted
              · rename_i plain
                split at targeted
                · cases targeted
                · rename_i full
                  split at targeted
                  · cases targeted
                  · rename_i short
                    cases targeted
                    obtain ⟨whole, nonempty⟩ := segments_of_kept segments above last kept full
                    have named : last ≠ ['.'] ∧ last ≠ ['.', '.'] := by simpa using plain
                    rw [walk_append] at followed
                    cases reached : tree.walk [] above.reverse with
                    | error cause =>
                        rw [reached] at followed
                        cases followed
                    | ok folder =>
                        rw [reached] at followed
                        obtain ⟨rfl, isFolder⟩ := tree.walk_empty folder inner followed
                        exact ⟨above.reverse, last, inner,
                          ⟨fault, pieces.trans whole, reached, isFolder,
                            by simp [Path.isRedundant, nonempty, named.1], named.2, by simpa using short⟩, rfl⟩

/-- A path that leads to an entry may be written at that place only. -/
theorem target_of_locate (tree : Tree) (path : Path) (place found : List Text) (located : tree.locate path = .ok found)
    (targeted : tree.target path = .ok place) : place = found := by
  obtain ⟨above, last, folder, writable, rfl⟩ := tree.target_eq_ok path place targeted
  unfold locate at located
  rw [writable.allowed, writable.segments] at located
  dsimp only at located
  rw [walk_append, writable.followed] at located
  exact (tree.walk_last folder found last located writable.counts writable.below).symm

theorem read_eq_ok_iff (tree : Tree) (path : Path) (text : Text) :
    tree.read path = .ok text ↔
      ∃ place writable, tree.locate path = .ok place ∧ tree.entry? place = some (.document (.text text) writable) := by
  unfold read
  cases located : tree.locate path with
  | error cause => simp [bind, Except.bind]
  | ok place =>
      simp only [bind, Except.bind, Except.ok.injEq, exists_eq_left', exists_and_left]
      cases known : tree.entry? place with
      | none => simp
      | some entry =>
          cases entry with
          | folder => simp
          | document contents writable =>
              cases contents with
              | bytes bytes => simp
              | text own => simp [eq_comm]

/-- What a path reads depends on the entry that it leads to. -/
theorem read_congr (left right : Tree) (shape : left.SameShape right) (path : Path)
    (same : ∀ place, left.locate path = .ok place → left.entry? place = right.entry? place) :
    left.read path = right.read path := by
  unfold read
  rw [← shape.locate_eq]
  cases located : left.locate path with
  | error cause => rfl
  | ok place =>
      simp only [bind, Except.bind]
      rw [same place located]

theorem write_eq_ok (tree after : Tree) (path : Path) (text : Text) (written : tree.write path text = .ok after) :
    ∃ place, tree.target path = .ok place ∧ tree.entry? place ≠ some .folder ∧
      after = tree.insert place (.document (.text text) true) := by
  unfold write at written
  cases targeted : tree.target path with
  | error cause =>
      rw [targeted] at written
      cases written
  | ok place =>
      rw [targeted] at written
      simp only [bind, Except.bind] at written
      refine ⟨place, rfl, ?_⟩
      split at written
      · cases written
      · cases written
      · rename_i other _
        cases written
        exact ⟨fun folder => other folder, rfl⟩

/-- After a document has been written its path reads the new text, and paths that lead elsewhere read what
they did. -/
theorem read_after_write (tree after : Tree) (path : Path) (old text : Text) (known : tree.read path = .ok old)
    (written : tree.write path text = .ok after) :
    after.read path = .ok text ∧ ∀ other, tree.locate other ≠ tree.locate path → after.read other = tree.read other := by
  obtain ⟨place, writable, located, entry⟩ := (tree.read_eq_ok_iff path old).mp known
  obtain ⟨target, targeted, _, rfl⟩ := tree.write_eq_ok after path text written
  have same := tree.target_of_locate path target place located targeted
  subst same
  have inside : target ≠ [] := by
    rintro rfl
    cases entry
  have shape := tree.sameShape_insert target _ (.text text) _ true entry
  constructor
  · apply (read_eq_ok_iff _ path text).mpr
    exact ⟨target, true, by rw [shape.locate_eq, located], by rw [tree.entry_insert target target _ inside, if_pos rfl]⟩
  · intro other apart
    unfold read
    rw [shape.locate_eq]
    cases leads : tree.locate other with
    | error cause => rfl
    | ok elsewhere =>
        have differs : elsewhere ≠ target := by
          rintro rfl
          exact apart (leads.trans located.symm)
        simp only [bind, Except.bind]
        rw [tree.entry_insert target elsewhere _ inside, if_neg differs]

/-- A walk that succeeds still does when a document has been put where no folder is. -/
theorem walk_insert (tree : Tree) (place : List Text) (contents : Contents) (writable : Bool)
    (inside : place ≠ []) (free : tree.entry? place ≠ some .folder) (start segments found : List Text)
    (walked : tree.walk start segments = .ok found) :
    (tree.insert place (.document contents writable)).walk start segments = .ok found := by
  induction segments generalizing start with
  | nil => exact walked
  | cons segment segments ih =>
      rw [walk] at walked ⊢
      cases known : tree.entry? start with
      | none =>
          rw [known] at walked
          cases walked
      | some entry =>
          rw [known] at walked
          cases entry with
          | document other free => cases walked
          | folder =>
              have apart : start ≠ place := by
                rintro rfl
                exact free known
              have still (next : List Text) (there : (tree.entry? next).isSome = true) :
                  (Tree.entry? (tree.insert place (.document contents writable)) next).isSome = true := by
                rw [tree.entry_insert place next _ inside]
                split
                · rfl
                · exact there
              rw [tree.entry_insert place start _ inside, if_neg apart, known]
              dsimp only at walked ⊢
              split at walked
              · rename_i redundant
                rw [if_pos redundant]
                exact ih start walked
              · rename_i counts
                rw [if_neg counts]
                split at walked
                · rename_i up
                  rw [if_pos up]
                  exact ih _ walked
                · rename_i below
                  rw [if_neg below]
                  split at walked
                  · cases walked
                  · rename_i short
                    rw [if_neg short]
                    split at walked
                    · rename_i there
                      rw [if_pos (still _ there)]
                      exact ih _ walked
                    · cases walked

theorem read_written (tree after : Tree) (path : Path) (text : Text) (written : tree.write path text = .ok after) :
    ∃ place, tree.target path = .ok place ∧ after.read path = .ok text ∧
      ∀ other, other ≠ place → after.entry? other = tree.entry? other := by
  obtain ⟨place, targeted, free, rfl⟩ := tree.write_eq_ok after path text written
  obtain ⟨above, last, folder, writable, rfl⟩ := tree.target_eq_ok path place targeted
  have inside : folder ++ [last] ≠ [] := by simp
  refine ⟨folder ++ [last], targeted, ?_, fun other apart => ?_⟩
  · apply (read_eq_ok_iff _ path text).mpr
    refine ⟨folder ++ [last], true, ?_, by rw [tree.entry_insert _ _ _ inside, if_pos rfl]⟩
    unfold locate
    rw [writable.allowed, writable.segments]
    dsimp only
    rw [walk_append, tree.walk_insert _ _ _ inside free [] above folder writable.followed]
    have apart : folder ≠ folder ++ [last] := by simp
    change walk _ folder [last] = _
    rw [walk, tree.entry_insert _ _ _ inside, if_neg apart, writable.isFolder]
    simp only [writable.counts, writable.short, Bool.false_eq_true, if_false, if_neg writable.below, walk]
    rw [tree.entry_insert _ _ _ inside, if_pos rfl]
    rfl
  · rw [tree.entry_insert _ other _ inside, if_neg apart]

def overwrite (tree : Tree) (path : Path) (text : Text) : Tree :=
  (tree.write path text).toOption.getD tree

theorem overwrite_eq (tree : Tree) (path : Path) (place : List Text) (contents : Contents) (writable : Bool) (text : Text)
    (located : tree.locate path = .ok place) (known : tree.entry? place = some (.document contents writable)) :
    tree.overwrite path text =
      if (tree.target path).isOk && writable then tree.insert place (.document (.text text) true) else tree := by
  unfold overwrite write
  cases targeted : tree.target path with
  | error cause => rfl
  | ok found =>
      have here := tree.target_of_locate path found place located targeted
      subst here
      simp only [bind, Except.bind]
      rw [known]
      cases writable <;> rfl

theorem entry_overwrite (tree : Tree) (path : Path) (place other : List Text) (contents : Contents) (writable : Bool)
    (text : Text) (located : tree.locate path = .ok place)
    (known : tree.entry? place = some (.document contents writable)) (differs : other ≠ place) :
    Tree.entry? (tree.overwrite path text) other = tree.entry? other := by
  have inside : place ≠ [] := by
    rintro rfl
    cases known
  rw [tree.overwrite_eq path place contents writable text located known]
  split
  · rw [tree.entry_insert place other _ inside, if_neg differs]
  · rfl

theorem sameShape_overwrite (tree : Tree) (path : Path) (place : List Text) (contents : Contents) (writable : Bool)
    (text : Text) (located : tree.locate path = .ok place)
    (known : tree.entry? place = some (.document contents writable)) :
    (tree.overwrite path text).SameShape tree := by
  rw [tree.overwrite_eq path place contents writable text located known]
  split
  · exact tree.sameShape_insert place contents (.text text) writable true known
  · exact fun _ => rfl

/-- Whether overwriting succeeds, and what is there afterwards, depends on the entry alone. -/
theorem entry_overwrite_congr (left right : Tree) (shape : left.SameShape right) (path : Path) (place : List Text)
    (contents : Contents) (writable : Bool) (text : Text) (located : left.locate path = .ok place)
    (known : left.entry? place = some (.document contents writable)) (same : left.entry? place = right.entry? place) :
    Tree.entry? (left.overwrite path text) place = Tree.entry? (right.overwrite path text) place := by
  have inside : place ≠ [] := by
    rintro rfl
    cases known
  rw [left.overwrite_eq path place contents writable text located known,
    right.overwrite_eq path place contents writable text (shape.locate_eq path ▸ located) (same ▸ known),
    shape.target_eq path]
  split
  · rw [left.entry_insert place place _ inside, right.entry_insert place place _ inside, if_pos rfl, if_pos rfl]
  · exact same

end MemberDoc.Tree
