import MemberDoc.Config.Discovery
import MemberDoc.Proofs.SharedDocument
import MemberDoc.Proofs.TextSearch

set_option autoImplicit false

/-! The configuration file that counts for a start folder. The search looks at the start folder and at every folder
above it, as far as the first folder of a repository, and takes the nearest configuration file. Where no double dot
leads up, the folders above a path are the folders above a place, and what they hold are the entries there. -/

namespace MemberDoc.Path

theorem dropTrailing_split (segments : List Text) :
    ∃ redundant, segments = dropTrailing segments ++ redundant ∧ ∀ segment ∈ redundant, isRedundant segment = true := by
  refine ⟨(segments.reverse.takeWhile isRedundant).reverse, ?_, fun segment member => ?_⟩
  · rw [dropTrailing, ← List.reverse_append, List.takeWhile_append_dropWhile, List.reverse_reverse]
  · rw [List.mem_reverse] at member
    exact List.all_eq_true.mp List.all_takeWhile segment member

private theorem filter_dropTrailing (segments : List Text) :
    (dropTrailing segments).filter (fun segment => !isRedundant segment) =
      segments.filter fun segment => !isRedundant segment := by
  obtain ⟨redundant, whole, uncounted⟩ := dropTrailing_split segments
  have nothing : redundant.filter (fun segment => !isRedundant segment) = [] :=
    List.filter_eq_nil_iff.mpr fun segment member => by simp [uncounted segment member]
  calc (dropTrailing segments).filter (fun segment => !isRedundant segment)
      = (dropTrailing segments ++ redundant).filter (fun segment => !isRedundant segment) := by
        rw [List.filter_append, nothing, List.append_nil]
    _ = segments.filter fun segment => !isRedundant segment := by rw [← whole]

private theorem dropTrailing_last (segments front : List Text) (last : Text)
    (kept : dropTrailing segments = front ++ [last]) :
    isRedundant last = false := by
  have first := List.head?_dropWhile_not isRedundant segments.reverse
  have turned : segments.reverse.dropWhile isRedundant = last :: front.reverse := by
    rw [← List.reverse_reverse (segments.reverse.dropWhile isRedundant)]
    change (dropTrailing segments).reverse = _
    rw [kept, List.reverse_append]
    rfl
  rw [turned] at first
  exact first

theorem parent_eq (path : Path) (rest front : List Text) (last : Text)
    (pieces : Text.splitOn '/' path.text = [] :: rest) (kept : dropTrailing rest = front ++ [last]) :
    path.parent? =
      some ⟨if dropTrailing front = [] then ['/'] else Text.joinWith ['/'] ([] :: dropTrailing front)⟩ := by
  obtain ⟨head, more, form⟩ :=
    List.exists_cons_of_ne_nil (List.append_ne_nil_of_right_ne_nil front (List.cons_ne_nil last []))
  rw [parent?, pieces]
  dsimp only
  rw [kept, form]
  dsimp only
  rw [← form, List.dropLast_concat]
  cases dropTrailing front with
  | nil => rfl
  | cons piece others => rfl

/-- The root has no parent. The parent of any other absolute path has all names but the last, and is written as the
start of that path. -/
theorem parent_rooted (path : Path) (rooted : path.isAbsolute = true) :
    (path.components = [] ∧ path.parent? = none) ∨
      ∃ up name, path.parent? = some up ∧ up.isAbsolute = true ∧ path.components = up.components ++ [name] ∧
        up.text <+: path.text := by
  have first : path.text.head? = some '/' := of_decide_eq_true rooted
  obtain ⟨tail, whole⟩ := List.head?_eq_some_iff.mp first
  have pieces : Text.splitOn '/' path.text = [] :: Text.splitOn '/' tail := by rw [whole, Text.splitOn, if_pos rfl]
  have joined := Text.joinWith_splitOn '/' path.text
  have unbroken := Text.not_mem_of_mem_splitOn '/' path.text
  have counted : path.components = (dropTrailing (Text.splitOn '/' tail)).filter fun segment => !isRedundant segment := by
    rw [components_rooted path rooted, names, pieces]
    exact (filter_dropTrailing (Text.splitOn '/' tail)).symm
  rw [pieces] at joined unbroken
  generalize Text.splitOn '/' tail = rest at pieces joined unbroken counted
  obtain ⟨redundant, split, _⟩ := dropTrailing_split rest
  rcases List.eq_nil_or_concat (dropTrailing rest) with empty | ⟨front, last, kept⟩
  · refine .inl ⟨by rw [counted, empty]; rfl, ?_⟩
    rw [parent?, pieces]
    dsimp only
    rw [empty]
    rfl
  · rw [List.concat_eq_append] at kept
    obtain ⟨others, inner, _⟩ := dropTrailing_split front
    have named : path.components = (dropTrailing front).filter (fun segment => !isRedundant segment) ++ [last] := by
      rw [counted, kept, List.filter_append, filter_dropTrailing,
        List.filter_cons_of_pos (by simp [dropTrailing_last rest front last kept])]
      rfl
    refine .inr ⟨_, last, parent_eq path rest front last pieces kept, ?_⟩
    rw [named]
    cases above : dropTrailing front with
    | nil => exact ⟨rfl, rfl, by rw [whole]; exact ⟨tail, rfl⟩⟩
    | cons piece upper =>
        rw [if_neg (List.cons_ne_nil piece upper)]
        have longer : [] :: rest = ([] :: piece :: upper) ++ (others ++ [last] ++ redundant) := by
          rw [split, kept, inner, above]
          simp
        have absolute : isAbsolute ⟨Text.joinWith ['/'] ([] :: piece :: upper)⟩ = true := rfl
        refine ⟨absolute, ?_, ?_⟩
        · rw [components_rooted _ absolute, names, Text.splitOn_joinWith '/' _ (List.cons_ne_nil _ _)]
          · rfl
          · intro other member
            refine unbroken other ?_
            rw [longer]
            exact List.mem_append_left _ member
        · rw [← joined, longer]
          exact Text.joinWith_part ['/'] _ _ (List.cons_ne_nil _ _)

/-- The folder some levels up; nothing is above the root. -/
def above (path : Path) : Nat → Path
  | 0 => path
  | level + 1 => (path.above level).parent?.getD (path.above level)

def depth (path : Path) : Nat :=
  path.components.length

private theorem above_parent (path up : Path) (known : path.parent? = some up) (level : Nat) :
    path.above (level + 1) = up.above level := by
  induction level with
  | zero =>
      change path.parent?.getD path = up
      rw [known, Option.getD_some]
  | succ level ih => rw [above, ih, above]

/-- The folders above an absolute path are those of its first names, as they are written in the path. -/
structure IsAbove (path : Path) (level : Nat) (folder : Path) : Prop where
  rooted : folder.isAbsolute = true
  named : folder.components = path.components.take (path.depth - level)
  written : folder.text <+: path.text

private theorem isAbove_above (path : Path) (rooted : path.isAbsolute = true) (level : Nat) :
    IsAbove path level (path.above level) := by
  induction level with
  | zero => exact ⟨rooted, by rw [above, depth, Nat.sub_zero, List.take_length], List.prefix_rfl⟩
  | succ level ih =>
      rw [above]
      rcases parent_rooted (path.above level) ih.rooted with ⟨empty, root⟩ | ⟨up, name, known, absolute, named, written⟩
      · rw [root]
        refine ⟨ih.rooted, ?_, ih.written⟩
        have top := congrArg List.length (ih.named.symm.trans empty)
        rw [List.length_take, List.length_nil] at top
        rw [Option.getD_none, empty]
        refine (List.length_eq_zero_iff.mp ?_).symm
        rw [List.length_take]
        omega
      · rw [known]
        refine ⟨absolute, ?_, written.trans ih.written⟩
        have shorter : up.components = (path.above level).components.dropLast := by rw [named, List.dropLast_concat]
        rw [ih.named, List.dropLast_eq_take, List.take_take, List.length_take] at shorter
        rw [Option.getD_some, shorter]
        congr 1
        have sizes := congrArg List.length (named.symm.trans ih.named)
        rw [List.length_append, List.length_singleton, List.length_take] at sizes
        unfold depth at sizes ⊢
        omega

private theorem depth_le (path : Path) (rooted : path.isAbsolute = true) : path.depth ≤ path.text.length := by
  have first : path.text.head? = some '/' := of_decide_eq_true rooted
  obtain ⟨tail, whole⟩ := List.head?_eq_some_iff.mp first
  have pieces := Text.length_splitOn '/' tail
  have fewer := List.length_filter_le (fun segment => !isRedundant segment) (Text.splitOn '/' tail)
  have counted : path.components = (Text.splitOn '/' tail).filter fun segment => !isRedundant segment := by
    rw [components_rooted path rooted, names, whole, Text.splitOn, if_pos rfl]
    rfl
  rw [depth, counted, whole, List.length_cons]
  omega

end MemberDoc.Path

namespace MemberDoc.Config

/-- The configuration file of the folder at a level, with no configuration file and no repository in the folders
that are nearer. -/
structure IsNearest (tree : Tree) (start : Path) (level : Nat) (found : Path) : Prop where
  within : level ≤ start.depth
  named : found = (start.above level).join fileName
  present : tree.hasPath found = true
  first : ∀ nearer < level, tree.hasPath ((start.above nearer).join fileName) = false
  inside : ∀ nearer < level, tree.hasPath ((start.above nearer).join repositoryMark) = false

theorem isNearest_parent_iff (tree : Tree) (folder up found : Path) (level : Nat) (known : folder.parent? = some up)
    (deeper : folder.depth = up.depth + 1) (here : tree.hasPath (folder.join fileName) = false)
    (bound : tree.hasPath (folder.join repositoryMark) = false) :
    IsNearest tree folder (level + 1) found ↔ IsNearest tree up level found := by
  have shifted := folder.above_parent up known
  constructor
  · rintro ⟨within, named, present, first, inside⟩
    refine ⟨by omega, by rw [named, shifted], present, fun nearer below => ?_, fun nearer below => ?_⟩
    · rw [← shifted]
      exact first (nearer + 1) (Nat.succ_lt_succ below)
    · rw [← shifted]
      exact inside (nearer + 1) (Nat.succ_lt_succ below)
  · rintro ⟨within, named, present, first, inside⟩
    refine ⟨by omega, by rw [named, shifted], present, fun nearer below => ?_, fun nearer below => ?_⟩
    · cases nearer with
      | zero => exact here
      | succ nearer =>
          rw [shifted]
          exact first nearer (Nat.lt_of_succ_lt_succ below)
    · cases nearer with
      | zero => exact bound
      | succ nearer =>
          rw [shifted]
          exact inside nearer (Nat.lt_of_succ_lt_succ below)

private theorem exists_nearest_of_here (tree : Tree) (folder found : Path)
    (here : tree.hasPath (folder.join fileName) = true) :
    (∃ level, IsNearest tree folder level found) ↔ folder.join fileName = found := by
  constructor
  · rintro ⟨level, nearest⟩
    cases level with
    | zero => exact nearest.named.symm
    | succ level =>
        have missing := nearest.first 0 (Nat.succ_pos level)
        rw [Path.above, here] at missing
        cases missing
  · rintro rfl
    exact ⟨0, Nat.zero_le _, rfl, here, fun nearer below => absurd below (Nat.not_lt_zero nearer),
      fun nearer below => absurd below (Nat.not_lt_zero nearer)⟩

private theorem IsNearest.positive {tree : Tree} {folder found : Path} {level : Nat}
    (nearest : IsNearest tree folder level found) (here : tree.hasPath (folder.join fileName) = false) : 0 < level := by
  apply Nat.pos_of_ne_zero
  rintro rfl
  have present := nearest.present
  rw [nearest.named, Path.above, here] at present
  cases present

/-- The fuel is not what ends the search. -/
theorem findFrom_eq_some_iff (tree : Tree) (fuel : Nat) (folder found : Path) (rooted : folder.isAbsolute = true)
    (enough : folder.depth < fuel) :
    findFrom? tree fuel folder = some found ↔ ∃ level, IsNearest tree folder level found := by
  induction fuel generalizing folder with
  | zero => exact absurd enough (Nat.not_lt_zero _)
  | succ fuel ih =>
      rw [findFrom?]
      cases here : tree.hasPath (folder.join fileName) with
      | true => rw [if_pos rfl, Option.some.injEq, exists_nearest_of_here tree folder found here]
      | false =>
          rw [if_neg Bool.false_ne_true]
          cases bound : tree.hasPath (folder.join repositoryMark) with
          | true =>
              rw [if_pos rfl]
              refine iff_of_false (Option.some_ne_none found ∘ Eq.symm) ?_
              rintro ⟨level, nearest⟩
              have outside := nearest.inside 0 (nearest.positive here)
              rw [Path.above, bound] at outside
              cases outside
          | false =>
              rw [if_neg Bool.false_ne_true]
              rcases folder.parent_rooted rooted with ⟨empty, root⟩ | ⟨up, name, known, absolute, named, _⟩
              · rw [root, Option.bind_none]
                refine iff_of_false (Option.some_ne_none found ∘ Eq.symm) ?_
                rintro ⟨level, nearest⟩
                have positive := nearest.positive here
                have within := nearest.within
                rw [Path.depth, empty] at within
                exact absurd positive (Nat.not_lt.mpr within)
              · have deeper : folder.depth = up.depth + 1 := by
                  rw [Path.depth, named, List.length_append]
                  rfl
                rw [known, Option.bind_some, ih up absolute (by omega)]
                constructor
                · rintro ⟨level, nearest⟩
                  exact ⟨level + 1, (isNearest_parent_iff tree folder up found level known deeper here bound).mpr nearest⟩
                · rintro ⟨level, nearest⟩
                  cases level with
                  | zero => exact absurd (nearest.positive here) (Nat.lt_irrefl 0)
                  | succ level =>
                      exact ⟨level, (isNearest_parent_iff tree folder up found level known deeper here bound).mp nearest⟩

theorem find_eq_some_iff (tree : Tree) (start found : Path) (rooted : start.isAbsolute = true) :
    find? tree start = some found ↔ ∃ level, IsNearest tree start level found :=
  findFrom_eq_some_iff tree _ start found rooted (Nat.lt_succ_of_le (start.depth_le rooted))

end MemberDoc.Config

namespace MemberDoc.Tree

/-- A place with folders all the way from the root, and with an entry of a given name. -/
structure Holds (tree : Tree) (place : List Text) (name : Text) : Prop where
  folders : ∀ part, part <+: place → tree.entry? part = some .folder
  short : ∀ part ∈ place, isLongName part = false
  entry : (tree.entry? (place ++ [name])).isSome = true

/-- A name of an entry, not a way to another folder. -/
structure IsEntryName (name : Text) : Prop where
  counts : Path.isRedundant name = false
  plain : name ≠ ['.', '.']
  whole : '/' ∉ name
  short : isLongName name = false

theorem walk_step_iff (tree : Tree) (place segments : List Text) (segment : Text) (down : segment ≠ ['.', '.']) :
    (∃ found, tree.walk place (segment :: segments) = .ok found) ↔
      tree.entry? place = some .folder ∧
        if Path.isRedundant segment = true then ∃ found, tree.walk place segments = .ok found
        else isLongName segment = false ∧ (tree.entry? (place ++ [segment])).isSome = true ∧
          ∃ found, tree.walk (place ++ [segment]) segments = .ok found := by
  rw [walk]
  cases tree.entry? place with
  | none => simp
  | some entry =>
      cases entry with
      | document contents writable => simp
      | folder =>
          cases Path.isRedundant segment with
          | true => simp
          | false =>
              cases long : isLongName segment with
              | true => simp [down]
              | false =>
                  cases tree.entry? (place ++ [segment]) with
                  | none => simp [down]
                  | some entry => simp [down]

/-- A path without double dots can be followed to an entry exactly if the folders and the entry are there. -/
theorem walk_down_iff (tree : Tree) (place segments : List Text) (name : Text) (isName : IsEntryName name)
    (down : ['.', '.'] ∉ segments) :
    (∃ found, tree.walk place (segments ++ [name]) = .ok found) ↔
      (∀ part, part <+: segments.filter (fun segment => !Path.isRedundant segment) →
          tree.entry? (place ++ part) = some .folder) ∧
        (∀ part ∈ segments.filter (fun segment => !Path.isRedundant segment), isLongName part = false) ∧
        (tree.entry? (place ++ segments.filter (fun segment => !Path.isRedundant segment) ++ [name])).isSome = true := by
  induction segments generalizing place with
  | nil =>
      rw [List.nil_append, walk_step_iff tree place [] name isName.plain]
      simp [isName.counts, isName.short, walk, List.prefix_nil]
  | cons segment segments ih =>
      have onward := fun place => ih place fun later => down (List.mem_cons_of_mem segment later)
      rw [List.cons_append, walk_step_iff tree place _ segment fun up => down (by rw [up]; exact List.mem_cons_self),
        onward, onward]
      cases redundant : Path.isRedundant segment with
      | true =>
          rw [List.filter_cons_of_neg (by simp [redundant]), if_pos rfl]
          refine ⟨fun both => both.2, fun all => ⟨?_, all⟩⟩
          have start := all.1 [] List.nil_prefix
          rwa [List.append_nil] at start
      | false =>
          rw [List.filter_cons_of_pos (by simp [redundant]), if_neg Bool.false_ne_true, forall_start_cons,
            List.forall_mem_cons, List.append_nil]
          simp only [List.append_assoc, List.cons_append, List.nil_append]
          constructor
          · rintro ⟨here, fits, _, folders, short, entry⟩
            exact ⟨⟨here, folders⟩, ⟨fits, short⟩, entry⟩
          · rintro ⟨⟨here, folders⟩, ⟨fits, short⟩, entry⟩
            have next := folders [] List.nil_prefix
            exact ⟨here, fits, by rw [next]; rfl, folders, short, entry⟩

private theorem segments_join (folder : Path) (name : Text) (rooted : folder.isAbsolute = true)
    (isName : IsEntryName name) :
    ∃ segments, Text.splitOn '/' (folder.join name).text = segments ++ [name] ∧
      segments.filter (fun segment => !Path.isRedundant segment) = Path.names folder.text := by
  have relative : name.head? ≠ some '/' := fun first => isName.whole (List.mem_of_mem_head? first)
  have single := Text.splitOn_of_not_mem '/' name isName.whole
  have first : folder.text.head? = some '/' := of_decide_eq_true rooted
  obtain ⟨tail, whole⟩ := List.head?_eq_some_iff.mp first
  unfold Path.join
  rw [if_neg relative]
  split
  · rename_i ended
    rcases List.eq_nil_or_concat folder.text with empty | ⟨lead, last, known⟩
    · rw [whole] at empty
      cases empty
    · rw [List.concat_eq_append] at known
      have separator : last = '/' := by simpa [known] using ended
      subst separator
      refine ⟨Text.splitOn '/' lead, ?_, ?_⟩
      · rw [known, List.append_assoc, List.singleton_append, Text.splitOn_append, single]
      · rw [known, Path.names_split, Path.names_nil, List.append_nil]
        rfl
  · exact ⟨Text.splitOn '/' folder.text, by rw [Text.splitOn_append, single], rfl⟩

theorem hasPath_join_iff (tree : Tree) (folder : Path) (name : Text) (rooted : folder.isAbsolute = true)
    (isName : IsEntryName name) (down : ['.', '.'] ∉ folder.components) (allowed : pathFault? (folder.join name) = none) :
    tree.hasPath (folder.join name) = true ↔ tree.Holds folder.components name := by
  rw [Path.components_rooted folder rooted] at down ⊢
  obtain ⟨segments, pieces, named⟩ := segments_join folder name rooted isName
  have level : ['.', '.'] ∉ segments := by
    intro up
    refine down ?_
    rw [← named]
    exact List.mem_filter.mpr ⟨up, rfl⟩
  have followed := tree.walk_down_iff [] segments name isName level
  simp only [named, List.nil_append] at followed
  unfold hasPath locate
  rw [allowed, pieces]
  dsimp only
  cases walked : tree.walk [] (segments ++ [name]) with
  | error cause =>
      refine iff_of_false Bool.false_ne_true fun holds => ?_
      obtain ⟨found, reached⟩ := followed.mpr ⟨holds.folders, holds.short, holds.entry⟩
      rw [walked] at reached
      cases reached
  | ok found =>
      have arrived := tree.walk_eq_arrive [] _ found walked
      have own : [name].filter (fun segment => !Path.isRedundant segment) = [name] :=
        List.filter_cons_of_pos (by simp [isName.counts])
      have straight : ['.', '.'] ∉ Path.names folder.text ++ [name] := by
        intro member
        rcases List.mem_append.mp member with inner | last
        · exact down inner
        · exact isName.plain (List.mem_singleton.mp last).symm
      rw [List.filter_append, named, own, Path.arrive_down [] _ straight, List.nil_append] at arrived
      subst arrived
      obtain ⟨folders, short, entry⟩ := followed.mp ⟨_, walked⟩
      exact iff_of_true entry ⟨folders, short, entry⟩

end MemberDoc.Tree

namespace MemberDoc.Path

/-- A path without double dots, and such that the names of this search can be put behind it. -/
structure IsDirect (path : Path) : Prop where
  down : ['.', '.'] ∉ path.components
  clean : ∀ c ∈ path.text, c.toNat ≠ 0
  short : Text.byteLength path.text + 1 + Text.byteLength Config.fileName ≤ 4095

end MemberDoc.Path

namespace MemberDoc.Config

private theorem isEntryName_marks : ∀ name ∈ [fileName, repositoryMark], Tree.IsEntryName name := by
  intro name member
  simp only [List.mem_cons, List.not_mem_nil, or_false] at member
  rcases member with rfl | rfl
  · exact ⟨by decide, by decide, by decide, by decide⟩
  · exact ⟨by decide, by decide, by decide, by decide⟩

private theorem pathFault_join (start folder : Path) (name : Text) (direct : start.IsDirect)
    (written : folder.text <+: start.text) (rooted : folder.isAbsolute = true)
    (known : name ∈ [fileName, repositoryMark]) : Tree.pathFault? (folder.join name) = none := by
  have solid : (∀ c ∈ name, c.toNat ≠ 0) ∧ name.head? ≠ some '/' ∧
      Text.byteLength name ≤ Text.byteLength fileName := by
    simp only [List.mem_cons, List.not_mem_nil, or_false] at known
    rcases known with rfl | rfl <;> exact ⟨Text.forall_of_all (by decide), by decide, by decide⟩
  obtain ⟨rest, whole⟩ := written
  have short := direct.short
  have clean : ∀ c ∈ folder.text, c.toNat ≠ 0 := by
    intro c member
    refine direct.clean c ?_
    rw [← whole]
    exact List.mem_append_left rest member
  have nonempty : folder.text ≠ [] := by
    intro empty
    simp [Path.isAbsolute, empty] at rooted
  -- The name stands behind the folder, with or without a separator between them.
  obtain ⟨middle, shape, few, plain⟩ : ∃ middle, (folder.join name).text = folder.text ++ (middle ++ name) ∧
      Text.byteLength middle ≤ 1 ∧ ∀ c ∈ middle, c.toNat ≠ 0 := by
    unfold Path.join
    rw [if_neg solid.2.1]
    split
    · exact ⟨[], rfl, Nat.zero_le 1, fun c member => absurd member List.not_mem_nil⟩
    · exact ⟨['/'], rfl, Nat.le_refl 1, Text.forall_of_all (by decide)⟩
  have size : Text.byteLength (folder.join name).text ≤ 4095 := by
    grind
  have free : (folder.join name).text.any (·.toNat = 0) = false := by
    rw [List.any_eq_false, shape]
    intro c member
    simp only [List.mem_append] at member
    rw [decide_eq_true_eq]
    rcases member with inFolder | inMiddle | inName
    · exact clean c inFolder
    · exact plain c inMiddle
    · exact solid.1 c inName
  have present : (folder.join name).text ≠ [] := by
    rw [shape]
    exact List.append_ne_nil_of_left_ne_nil nonempty _
  rw [Tree.pathFault?, free, if_neg Bool.false_ne_true, if_neg present, if_neg (Nat.not_lt.mpr size)]

/-- The configuration file that is found is that of the nearest folder, the start folder or one above it, that has
one, unless a nearer folder belongs to a repository; there is none otherwise. So a file beside the mark of a
repository is found, and one above it is not. Without double dots, the folder some levels up is the place of all
names but as many at the end, and the search asks for the entries there. -/
theorem find_nearest (tree : Tree) (start : Path) (rooted : start.isAbsolute = true) :
    (∀ level, Path.IsAbove start level (start.above level)) ∧
      (∀ found, find? tree start = some found ↔ ∃ level, IsNearest tree start level found) ∧
      (start.IsDirect → ∀ level, ∀ name ∈ [fileName, repositoryMark],
        (tree.hasPath ((start.above level).join name) = true ↔
          tree.Holds (start.components.take (start.depth - level)) name)) := by
  refine ⟨start.isAbove_above rooted, fun found => find_eq_some_iff tree start found rooted, ?_⟩
  intro direct level name known
  have up := start.isAbove_above rooted level
  have down : ['.', '.'] ∉ (start.above level).components := by
    rw [up.named]
    exact fun member => direct.down (List.mem_of_mem_take member)
  rw [tree.hasPath_join_iff _ name up.rooted (isEntryName_marks name known) down
    (pathFault_join start _ name direct up.written up.rooted known), up.named]

/-- A repository with a configuration file, inside of a folder with another one. -/
def workTree : Tree :=
  ⟨[(["work".toList], .folder), (["work".toList, fileName], .document (.text []) true),
    (["work".toList, "app".toList], .folder), (["work".toList, "app".toList, fileName], .document (.text []) true),
    (["work".toList, "app".toList, repositoryMark], .folder), (["work".toList, "app".toList, "src".toList], .folder)]⟩

def workStart : Path :=
  ⟨"/work//app/./src/".toList⟩

theorem find_nearest_work :
    workStart.isAbsolute = true ∧ workStart.IsDirect ∧
      find? workTree workStart = some ⟨"/work//app/.vmdocrc.json".toList⟩ ∧
      workTree.Holds ["work".toList, "app".toList] fileName := by
  have direct : workStart.IsDirect := ⟨by decide +kernel, Text.forall_of_all (by decide +kernel), by decide +kernel⟩
  obtain ⟨_, found, held⟩ := find_nearest workTree workStart rfl
  have alone (nearer : Nat) (below : nearer < 1) : nearer = 0 := by omega
  refine ⟨rfl, direct, (found _).mpr ⟨1, by decide +kernel, by decide +kernel, by decide +kernel, ?_, ?_⟩, ?_⟩
  · intro nearer below
    rw [alone nearer below]
    decide +kernel
  · intro nearer below
    rw [alone nearer below]
    decide +kernel
  · exact (held direct 1 fileName (by decide +kernel)).mp (by decide +kernel)

end MemberDoc.Config
