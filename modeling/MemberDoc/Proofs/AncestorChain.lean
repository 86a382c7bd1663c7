import MemberDoc.Proofs.Ancestry
import MemberDoc.Proofs.NestedCode

set_option autoImplicit false

/-! The chain of ancestors behind a snapshot. It is followed link by link and remembers which classes it has met, so it
ends in every class map, also where classes extend each other in a circle. A snapshot lists what the links of this chain
declare, and there is none exactly if one of them cannot be inspected. -/

namespace MemberDoc.ClassMap

open Source

/-- What keeps a class from being inspected: its document is not readable, or it is not found there. -/
inductive Fault (tree : Tree) (className : Text) (path : Path) : ReflectError → Prop where
  | unreadable (cause : AccessError) (failed : tree.read path = .error cause) :
      Fault tree className path (.unreadable path cause)
  | unscannable (source : Text) (cause : OutlineError) (read : tree.read path = .ok source)
      (failed : Source.outline source className = .error cause) :
      Fault tree className path (.unscannable className path cause)

theorem inspect_eq_error_iff (tree : Tree) (className : Text) (path : Path) (cause : ReflectError) :
    inspect tree className path = .error cause ↔ Fault tree className path cause := by
  unfold inspect
  cases read : tree.read path with
  | error access =>
      constructor
      · intro failed
        cases failed
        exact .unreadable access read
      · rintro (⟨other, failed⟩ | ⟨source, other, known, failed⟩)
        · cases read.symm.trans failed
          rfl
        · cases read.symm.trans known
  | ok source =>
      change ((Source.outline source className).mapError (ReflectError.unscannable className path) >>= fun outline =>
        .ok (source, outline)) = .error cause ↔ _
      cases scanned : Source.outline source className with
      | error missing =>
          constructor
          · intro failed
            cases failed
            exact .unscannable source missing read scanned
          · rintro (⟨other, failed⟩ | ⟨again, other, known, failed⟩)
            · cases read.symm.trans failed
            · cases read.symm.trans known
              cases scanned.symm.trans failed
              rfl
      | ok outline =>
          constructor
          · intro failed
            cases failed
          · rintro (⟨other, failed⟩ | ⟨again, other, known, failed⟩)
            · cases read.symm.trans failed
            · cases read.symm.trans known
              cases scanned.symm.trans failed

theorem inspect_of_outline (tree : Tree) (className : Text) (path : Path) (source : Text) (outline : Outline) :
    inspect tree className path = .ok (source, outline) ↔
      tree.read path = .ok source ∧ Source.outline source className = .ok outline := by
  rw [inspect_eq_ok_iff, ← outline_eq_ok_iff]

structure Link where
  className : Text
  result : Except ReflectError Outline

def Link.key (link : Link) : Text :=
  ClassName.key link.className

def Link.names (link : Link) : MemberNames :=
  match link.result with
  | .ok outline => ⟨outline.properties, outline.methods⟩
  | .error _ => ⟨[], []⟩

/-- The ancestors of a class from a given one on, behind others whose keys have been met. The chain ends where no
parent is named, and before one that is not mapped or has been met. It breaks at one that cannot be inspected. -/
inductive Chain (classes : ClassMap) (tree : Tree) : List Text → Option Text → List Link → Prop where
  | absent (met : List Text) : Chain classes tree met none []
  | unmapped (met : List Text) (name : Text) (outside : classes.path? name = none) :
      Chain classes tree met (some name) []
  | again (met : List Text) (name : Text) (known : ClassName.key name ∈ met) : Chain classes tree met (some name) []
  | broken (met : List Text) (name : Text) (path : Path) (cause : ReflectError)
      (fresh : ClassName.key name ∉ met) (mapped : classes.path? name = some path)
      (fault : Fault tree name path cause) : Chain classes tree met (some name) [⟨name, .error cause⟩]
  | inspected (met : List Text) (name : Text) (path : Path) (source : Text) (outline : Outline) (rest : List Link)
      (fresh : ClassName.key name ∉ met) (mapped : classes.path? name = some path)
      (read : tree.read path = .ok source) (scanned : Source.outline source name = .ok outline)
      (later : Chain classes tree (ClassName.key name :: met) outline.parent rest) :
      Chain classes tree met (some name) (⟨name, .ok outline⟩ :: rest)

variable {classes : ClassMap} {tree : Tree}

theorem Chain.unique {met : List Text} {parent : Option Text} {chain other : List Link}
    (follows : Chain classes tree met parent chain) (others : Chain classes tree met parent other) : other = chain := by
  induction follows generalizing other with
  | absent =>
      cases others
      rfl
  | unmapped met name outside =>
      cases others with
      | unmapped | again => rfl
      | broken _ _ path cause _ mapped => cases outside.symm.trans mapped
      | inspected _ _ path source outline rest _ mapped => cases outside.symm.trans mapped
  | again met name known =>
      cases others with
      | unmapped | again => rfl
      | broken _ _ path cause fresh => exact absurd known fresh
      | inspected _ _ path source outline rest fresh => exact absurd known fresh
  -- Both chains look into the same document, and there is one thing to be found there.
  | broken met name path cause fresh mapped fault =>
      have failed := (inspect_eq_error_iff tree name path cause).mpr fault
      cases others with
      | unmapped _ _ outside => cases outside.symm.trans mapped
      | again _ _ known => exact absurd known fresh
      | broken _ _ otherPath otherCause _ otherMapped otherFault =>
          cases mapped.symm.trans otherMapped
          cases failed.symm.trans ((inspect_eq_error_iff tree name path otherCause).mpr otherFault)
          rfl
      | inspected _ _ otherPath source outline rest _ otherMapped read scanned =>
          cases mapped.symm.trans otherMapped
          cases failed.symm.trans ((inspect_of_outline tree name path source outline).mpr ⟨read, scanned⟩)
  | inspected met name path source outline rest fresh mapped read scanned later ih =>
      have looked := (inspect_of_outline tree name path source outline).mpr ⟨read, scanned⟩
      cases others with
      | unmapped _ _ outside => cases outside.symm.trans mapped
      | again _ _ known => exact absurd known fresh
      | broken _ _ otherPath cause _ otherMapped fault =>
          cases mapped.symm.trans otherMapped
          cases looked.symm.trans ((inspect_eq_error_iff tree name path cause).mpr fault)
      | inspected _ _ otherPath otherSource otherOutline otherRest _ otherMapped otherRead otherScanned otherLater =>
          cases mapped.symm.trans otherMapped
          cases looked.symm.trans ((inspect_of_outline tree name path otherSource otherOutline).mpr
            ⟨otherRead, otherScanned⟩)
          rw [ih otherLater]

/-- No class is looked at twice, and none that has been met before. -/
theorem Chain.distinct {met : List Text} {parent : Option Text} {chain : List Link}
    (follows : Chain classes tree met parent chain) :
    (chain.map Link.key).Nodup ∧ ∀ key ∈ chain.map Link.key, key ∉ met := by
  induction follows with
  | absent | unmapped | again => exact ⟨List.nodup_nil, fun key member => absurd member List.not_mem_nil⟩
  | broken met name path cause fresh =>
      refine ⟨List.nodup_cons.mpr ⟨List.not_mem_nil, List.nodup_nil⟩, fun key member => ?_⟩
      rw [List.mem_singleton.mp member]
      exact fresh
  | inspected met name path source outline rest fresh mapped read scanned later ih =>
      obtain ⟨distinct, apart⟩ := ih
      refine ⟨List.nodup_cons.mpr ⟨fun twice => apart _ twice List.mem_cons_self, distinct⟩, fun key member => ?_⟩
      rcases List.mem_cons.mp member with rfl | further
      · exact fresh
      · exact fun known => apart key further (List.mem_cons_of_mem _ known)

theorem areDistinct_of_outline (source className : Text) (outline : Outline)
    (scanned : Source.outline source className = .ok outline) :
    (MemberNames.mk outline.properties outline.methods).AreDistinct := by
  obtain ⟨site, _, rfl⟩ := (outline_eq_ok_iff source className outline).mp scanned
  exact areDistinct_memberNames site.body

private theorem Chain.areDistinct {met : List Text} {parent : Option Text} {chain : List Link}
    (follows : Chain classes tree met parent chain) : ∀ link ∈ chain, link.names.AreDistinct := by
  induction follows with
  | absent | unmapped | again => exact fun link member => absurd member List.not_mem_nil
  | broken =>
      intro link member
      rw [List.mem_singleton.mp member]
      exact ⟨List.nodup_nil, List.nodup_nil⟩
  | inspected met name path source outline rest fresh mapped read scanned later ih =>
      intro link member
      rcases List.mem_cons.mp member with rfl | further
      · exact areDistinct_of_outline source name outline scanned
      · exact ih link further

def collect (names : MemberNames) : List Link → Except ReflectError MemberNames
  | [] => .ok names
  | link :: rest =>
      match link.result with
      | .ok _ => collect (names.merge link.names) rest
      | .error cause => .error cause

theorem collect_eq_ok_iff (names all : MemberNames) (chain : List Link) :
    collect names chain = .ok all ↔
      (∀ link ∈ chain, ∃ outline, link.result = .ok outline) ∧
        all = chain.foldl (fun listed link => listed.merge link.names) names := by
  induction chain generalizing names with
  | nil =>
      rw [collect, Except.ok.injEq]
      exact ⟨fun same => ⟨fun link member => absurd member List.not_mem_nil, same.symm⟩, fun ⟨_, same⟩ => same.symm⟩
  | cons link rest ih =>
      rw [collect, List.forall_mem_cons, List.foldl_cons]
      cases known : link.result with
      | ok outline =>
          rw [and_assoc]
          exact (ih _).trans ⟨fun sound => ⟨⟨outline, rfl⟩, sound⟩, fun ⟨_, sound⟩ => sound⟩
      | error cause => exact iff_of_false nofun fun ⟨⟨⟨outline, sound⟩, _⟩, _⟩ => nomatch sound

/-- A chain breaks at its last link only. -/
theorem Chain.collect_eq_error_iff {met : List Text} {parent : Option Text} {chain : List Link}
    (follows : Chain classes tree met parent chain) (names : MemberNames) (cause : ReflectError) :
    collect names chain = .error cause ↔ ∃ link ∈ chain, link.result = .error cause := by
  induction follows generalizing names with
  | absent | unmapped | again => exact iff_of_false nofun fun ⟨link, member, _⟩ => absurd member List.not_mem_nil
  | broken met name path found =>
      constructor
      · intro failed
        cases failed
        exact ⟨_, List.mem_cons_self, rfl⟩
      · rintro ⟨link, member, failed⟩
        rw [List.mem_singleton.mp member] at failed
        cases failed
        rfl
  | inspected met name path source outline rest fresh mapped read scanned later ih =>
      refine (ih _).trans ⟨fun ⟨link, member, failed⟩ => ⟨link, List.mem_cons_of_mem _ member, failed⟩, ?_⟩
      rintro ⟨link, member, failed⟩
      rcases List.mem_cons.mp member with rfl | further
      · cases failed
      · exact ⟨link, further, failed⟩

def addUnlisted (listed names : List Text) : List Text :=
  listed ++ names.filter fun name => !listed.contains name

theorem foldl_pushNew_eq (listed names : List Text) (distinct : names.Nodup) :
    names.foldl Text.pushNew listed = addUnlisted listed names := by
  induction names generalizing listed with
  | nil => exact (List.append_nil listed).symm
  | cons name names ih =>
      obtain ⟨absent, others⟩ := List.nodup_cons.mp distinct
      rw [List.foldl_cons, ih _ others]
      unfold addUnlisted Text.pushNew
      by_cases known : listed.contains name = true
      · rw [if_pos known, List.filter_cons_of_neg (by rw [known]; decide)]
      · have kept : (!listed.contains name) = true := by simpa using known
        have same : names.filter (fun other => !(listed ++ [name]).contains other) =
            names.filter fun other => !listed.contains other := by
          apply List.filter_congr
          intro other member
          have apart : other ≠ name := fun equal => absent (equal ▸ member)
          simp [apart]
        have first : (name :: names).filter (fun other => !listed.contains other) =
            name :: names.filter fun other => !listed.contains other := List.filter_cons_of_pos kept
        rw [if_neg known, first, same, List.append_assoc]
        rfl

theorem foldl_merge_eq (chain : List Link) (names : MemberNames) (distinct : ∀ link ∈ chain, link.names.AreDistinct) :
    chain.foldl (fun listed link => listed.merge link.names) names =
      ⟨(chain.map (·.names.properties)).foldl addUnlisted names.properties,
        (chain.map (·.names.methods)).foldl addUnlisted names.methods⟩ := by
  induction chain generalizing names with
  | nil => rfl
  | cons link rest ih =>
      obtain ⟨properties, methods⟩ := distinct link List.mem_cons_self
      rw [List.foldl_cons, ih _ fun other member => distinct other (List.mem_cons_of_mem link member)]
      simp only [List.map_cons, List.foldl_cons, MemberNames.merge, foldl_pushNew_eq _ _ properties,
        foldl_pushNew_eq _ _ methods]

private theorem areDistinct_foldl_merge (chain : List Link) (names : MemberNames) (distinct : names.AreDistinct) :
    (chain.foldl (fun listed link => listed.merge link.names) names).AreDistinct := by
  induction chain generalizing names with
  | nil => exact distinct
  | cons link rest ih => exact ih _ (distinct.merge link.names)

/-- What is left of a class map without the classes that have been met. -/
def IsRest (classes : ClassMap) (met : List Text) (rest : ClassMap) : Prop :=
  ∀ name, rest.path? name = if ClassName.key name ∈ met then none else classes.path? name

theorem isRest_self (classes : ClassMap) : IsRest classes [] classes := by
  intro name
  rw [if_neg List.not_mem_nil]

private theorem IsRest.erase {met : List Text} {rest : ClassMap} (isRest : IsRest classes met rest) (name : Text) :
    IsRest classes (ClassName.key name :: met) (rest.erase name) := by
  intro other
  rw [path_erase, isRest]
  by_cases same : ClassName.key other = ClassName.key name
  · rw [if_pos same, if_pos (by rw [same]; exact List.mem_cons_self)]
  · rw [if_neg same]
    simp only [List.mem_cons, same, false_or]

private theorem IsRest.ended {met : List Text} {rest : ClassMap} (isRest : IsRest classes met rest) (name : Text)
    (gone : rest.path? name = none) : Chain classes tree met (some name) [] := by
  rw [isRest] at gone
  split at gone
  · rename_i known
    exact .again met name known
  · exact .unmapped met name gone

private theorem IsRest.mapped {met : List Text} {rest : ClassMap} (isRest : IsRest classes met rest) (name : Text)
    (path : Path) (known : rest.path? name = some path) :
    ClassName.key name ∉ met ∧ classes.path? name = some path := by
  rw [isRest] at known
  split at known
  · cases known
  · rename_i fresh
    exact ⟨fresh, known⟩

private theorem length_erase_lt (classes : ClassMap) (name : Text) (path : Path)
    (mapped : classes.path? name = some path) :
    (classes.erase name).entries.length < classes.entries.length := by
  obtain ⟨before, behind, whole, _⟩ := List.lookup_eq_some_iff.mp mapped
  refine List.length_filter_lt_length_iff_exists.mpr ⟨(ClassName.key name, path), ?_, by simp⟩
  rw [whole]
  exact List.mem_append_right before List.mem_cons_self

/-- Names are collected along the chain. Each link takes a class out of the map, so as many steps as there are mapped
classes are enough for all of it. -/
theorem exists_chain (tree : Tree) (fuel : Nat) {met : List Text} {rest : ClassMap} (isRest : IsRest classes met rest)
    (enough : rest.entries.length ≤ fuel) (parent : Option Text) :
    ∃ chain, Chain classes tree met parent chain ∧ chain.length ≤ fuel ∧
      ∀ names, inherit tree fuel rest parent names = collect names chain := by
  induction fuel generalizing rest met parent with
  | zero =>
      refine ⟨[], ?_, Nat.le_refl 0, fun names => rfl⟩
      cases parent with
      | none => exact .absent met
      | some name =>
          apply isRest.ended
          unfold path?
          rw [List.length_eq_zero_iff.mp (Nat.le_zero.mp enough)]
          rfl
  | succ fuel ih =>
      cases parent with
      | none => exact ⟨[], .absent met, Nat.zero_le _, fun names => rfl⟩
      | some name =>
          cases known : rest.path? name with
          | none =>
              refine ⟨[], isRest.ended name known, Nat.zero_le _, fun names => ?_⟩
              rw [inherit, known]
              rfl
          | some path =>
              obtain ⟨fresh, mapped⟩ := isRest.mapped name path known
              cases looked : inspect tree name path with
              | error cause =>
                  have fault := (inspect_eq_error_iff tree name path cause).mp looked
                  refine ⟨_, .broken met name path cause fresh mapped fault, Nat.succ_le_succ (Nat.zero_le _),
                    fun names => ?_⟩
                  rw [inherit, known]
                  dsimp only
                  rw [looked]
                  rfl
              | ok found =>
                  obtain ⟨source, outline⟩ := found
                  obtain ⟨read, scanned⟩ := (inspect_of_outline tree name path source outline).mp looked
                  -- The class leaves the map when it is met, so the steps that are left suffice for what follows it.
                  have shorter := length_erase_lt rest name path known
                  obtain ⟨links, later, bound, collected⟩ := ih (isRest.erase name) (by omega) outline.parent
                  refine ⟨_, .inspected met name path source outline links fresh mapped read scanned later,
                    Nat.succ_le_succ bound, fun names => ?_⟩
                  rw [inherit, known]
                  dsimp only
                  rw [looked]
                  exact collected _

structure Descent (classes : ClassMap) (tree : Tree) (className : Text) (path : Path) (source : Text)
    (outline : Outline) (chain : List Link) : Prop where
  mapped : classes.path? className = some path
  read : tree.read path = .ok source
  scanned : Source.outline source className = .ok outline
  follows : Chain classes tree [] outline.parent chain

def snapshotOf (className : Text) (path : Path) (source : Text) (outline : Outline) (names : MemberNames) : Snapshot where
  name := className
  instantiable := outline.isInstantiable
  properties := names.properties
  methods := names.methods
  docComment := outline.docComment.map (·.text)
  source
  path

theorem Descent.reflect_eq {className : Text} {path : Path} {source : Text} {outline : Outline} {chain : List Link}
    (descent : Descent classes tree (ClassName.qualified className) path source outline chain) :
    classes.reflect tree className =
      (collect ⟨outline.properties, outline.methods⟩ chain).map
        (snapshotOf (ClassName.qualified className) path source outline) := by
  have looked := (inspect_of_outline tree _ path source outline).mpr ⟨descent.read, descent.scanned⟩
  obtain ⟨links, follows, _, collected⟩ :=
    exists_chain tree classes.entries.length (isRest_self classes) (Nat.le_refl _) outline.parent
  rw [reflect_of_inspect classes tree className path source outline descent.mapped looked, collected,
    descent.follows.unique follows]
  rfl

private theorem reflect_cases (classes : ClassMap) (tree : Tree) (className : Text) :
    classes.path? className = none ∨
      (∃ path cause, classes.path? className = some path ∧ Fault tree className path cause) ∨
      ∃ path source outline chain, Descent classes tree className path source outline chain := by
  cases mapped : classes.path? className with
  | none => exact .inl rfl
  | some path =>
      right
      cases looked : inspect tree className path with
      | error cause => exact .inl ⟨path, cause, rfl, (inspect_eq_error_iff tree className path cause).mp looked⟩
      | ok found =>
          obtain ⟨source, outline⟩ := found
          obtain ⟨read, scanned⟩ := (inspect_of_outline tree className path source outline).mp looked
          obtain ⟨chain, follows, _⟩ :=
            exists_chain tree classes.entries.length (isRest_self classes) (Nat.le_refl _) outline.parent
          exact .inr ⟨path, source, outline, chain, mapped, read, scanned, follows⟩

private theorem reflect_of_fault (className : Text) (path : Path) (cause : ReflectError)
    (mapped : classes.path? (ClassName.qualified className) = some path)
    (fault : Fault tree (ClassName.qualified className) path cause) :
    classes.reflect tree className = .error cause :=
  reflect_of_failure classes tree className path cause mapped ((inspect_eq_error_iff tree _ path cause).mpr fault)

/-- A class that can be inspected has a snapshot if all links of its chain can be. Names are listed once, class by
class. -/
theorem Descent.reflect_eq_ok_iff {className : Text} {path : Path} {source : Text} {outline : Outline}
    {chain : List Link} (descent : Descent classes tree (ClassName.qualified className) path source outline chain)
    (snapshot : Snapshot) :
    classes.reflect tree className = .ok snapshot ↔
      (∀ link ∈ chain, ∃ found, link.result = .ok found) ∧
        snapshot = snapshotOf (ClassName.qualified className) path source outline
          ⟨(chain.map (·.names.properties)).foldl addUnlisted outline.properties,
            (chain.map (·.names.methods)).foldl addUnlisted outline.methods⟩ ∧
        snapshot.properties.Nodup ∧ snapshot.methods.Nodup := by
  have own := areDistinct_of_outline source _ outline descent.scanned
  have distinct := areDistinct_foldl_merge chain _ own
  rw [foldl_merge_eq chain _ descent.follows.areDistinct] at distinct
  rw [descent.reflect_eq]
  constructor
  · intro taken
    cases collected : collect ⟨outline.properties, outline.methods⟩ chain with
    | error cause =>
        rw [collected] at taken
        cases taken
    | ok names =>
        rw [collected] at taken
        cases taken
        obtain ⟨sound, rfl⟩ := (collect_eq_ok_iff _ names chain).mp collected
        rw [foldl_merge_eq chain _ descent.follows.areDistinct]
        exact ⟨sound, rfl, distinct.properties, distinct.methods⟩
  · rintro ⟨sound, rfl, _, _⟩
    rw [(collect_eq_ok_iff _ _ chain).mpr ⟨sound, rfl⟩, foldl_merge_eq chain _ descent.follows.areDistinct]
    rfl

theorem Descent.reflect_eq_error_iff {className : Text} {path : Path} {source : Text} {outline : Outline}
    {chain : List Link} (descent : Descent classes tree (ClassName.qualified className) path source outline chain)
    (cause : ReflectError) :
    classes.reflect tree className = .error cause ↔ ∃ link ∈ chain, link.result = .error cause := by
  rw [descent.reflect_eq, ← descent.follows.collect_eq_error_iff ⟨outline.properties, outline.methods⟩]
  cases collect ⟨outline.properties, outline.methods⟩ chain with
  | ok names => exact iff_of_false nofun nofun
  | error found =>
      constructor <;> intro same <;> cases same <;> rfl

/-- From every class on there is one chain of ancestors. It is no longer than the class map and meets no class twice.
A snapshot lists the names of its class and then, along the chain, those of each ancestor that are not listed yet. It
cannot be taken exactly if the class is not mapped, or if the class or a link of its chain cannot be inspected. -/
theorem reflect_along_chain (classes : ClassMap) (tree : Tree) (className : Text) :
    (∀ parent, ∃ chain, (∀ other, Chain classes tree [] parent other ↔ other = chain) ∧
        (chain.map Link.key).Nodup ∧ chain.length ≤ classes.entries.length) ∧
      (∀ snapshot, classes.reflect tree className = .ok snapshot ↔
        ∃ path source outline chain, Descent classes tree (ClassName.qualified className) path source outline chain ∧
          (∀ link ∈ chain, ∃ found, link.result = .ok found) ∧
          snapshot = snapshotOf (ClassName.qualified className) path source outline
            ⟨(chain.map (·.names.properties)).foldl addUnlisted outline.properties,
              (chain.map (·.names.methods)).foldl addUnlisted outline.methods⟩ ∧
          snapshot.properties.Nodup ∧ snapshot.methods.Nodup) ∧
      ∀ cause, classes.reflect tree className = .error cause ↔
        (classes.path? (ClassName.qualified className) = none ∧ cause = .unmapped (ClassName.qualified className)) ∨
          (∃ path, classes.path? (ClassName.qualified className) = some path ∧
            Fault tree (ClassName.qualified className) path cause) ∨
          ∃ path source outline chain, Descent classes tree (ClassName.qualified className) path source outline chain ∧
            ∃ link ∈ chain, link.result = .error cause := by
  refine ⟨fun parent => ?_, fun snapshot => ⟨fun taken => ?_, ?_⟩, fun cause => ⟨fun refused => ?_, ?_⟩⟩
  · obtain ⟨chain, follows, bound, _⟩ :=
      exists_chain tree classes.entries.length (isRest_self classes) (Nat.le_refl _) parent
    refine ⟨chain, fun other => ⟨follows.unique, ?_⟩, follows.distinct.1, bound⟩
    rintro rfl
    exact follows
  · rcases reflect_cases classes tree (ClassName.qualified className) with
      outside | ⟨path, cause, mapped, fault⟩ | ⟨path, source, outline, chain, descent⟩
    · cases (reflect_of_unmapped classes tree className outside).symm.trans taken
    · cases (reflect_of_fault className path cause mapped fault).symm.trans taken
    · exact ⟨path, source, outline, chain, descent, (descent.reflect_eq_ok_iff snapshot).mp taken⟩
  · rintro ⟨path, source, outline, chain, descent, listed⟩
    exact (descent.reflect_eq_ok_iff snapshot).mpr listed
  · rcases reflect_cases classes tree (ClassName.qualified className) with
      outside | ⟨path, found, mapped, fault⟩ | ⟨path, source, outline, chain, descent⟩
    · cases (reflect_of_unmapped classes tree className outside).symm.trans refused
      exact .inl ⟨outside, rfl⟩
    · cases (reflect_of_fault className path found mapped fault).symm.trans refused
      exact .inr (.inl ⟨path, mapped, fault⟩)
    · exact .inr (.inr ⟨path, source, outline, chain, descent, (descent.reflect_eq_error_iff cause).mp refused⟩)
  · rintro (⟨outside, rfl⟩ | ⟨path, mapped, fault⟩ | ⟨path, source, outline, chain, descent, broken⟩)
    · exact reflect_of_unmapped classes tree className outside
    · exact reflect_of_fault className path cause mapped fault
    · exact (descent.reflect_eq_error_iff cause).mpr broken

end MemberDoc.ClassMap
