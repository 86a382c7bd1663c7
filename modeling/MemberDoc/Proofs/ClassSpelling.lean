import MemberDoc.Proofs.Lexemes
import MemberDoc.Proofs.TargetPartition
import MemberDoc.Proofs.TextSearch

set_option autoImplicit false

/-! The spellings of a class name and the classes of a configuration. However a class is spelled, its key is the
same, so a configuration in which no two keys agree leads every class to the document of its own target. -/

namespace MemberDoc.ClassName

/-- A name in another case, with further backslashes in front of what is left of it after trimming and with blanks
around that. -/
inductive Respells (name : Text) : Text → Prop where
  | spelled (front roots spelling behind : Text) (before : ∀ c ∈ front, Text.isBlank c = true)
      (rooted : ∀ c ∈ roots, c = '\\') (same : Text.sameName spelling (Text.trim name) = true)
      (after : ∀ c ∈ behind, Text.isBlank c = true) : Respells name (front ++ (roots ++ spelling) ++ behind)

private theorem qualified_lower (name : Text) : qualified (Text.lower name) = Text.lower (qualified name) := by
  have kept : (fun c => c == '\\') ∘ Char.toLower = fun c => c == '\\' := by
    funext c
    rw [Function.comp_apply, Bool.eq_iff_iff, beq_iff_eq, beq_iff_eq]
    constructor
    · exact Text.eq_of_toLower c '\\' (by decide)
    · rintro rfl
      rfl
  unfold qualified
  rw [Text.trim_lower, Text.lower, List.dropWhile_map, kept]
  rfl

private theorem qualified_padded (front roots name behind : Text) (before : ∀ c ∈ front, Text.isBlank c = true)
    (rooted : ∀ c ∈ roots, c = '\\') (after : ∀ c ∈ behind, Text.isBlank c = true) :
    qualified (front ++ (roots ++ Text.trim name) ++ behind) = qualified name := by
  have starts : Text.trimStart (roots ++ Text.trim name) = roots ++ Text.trim name := by
    cases roots with
    | nil => exact Text.trimStart_trim name
    | cons c roots =>
        rw [rooted c List.mem_cons_self]
        exact Text.trimStart_cons '\\' _ rfl
  have ends : Text.EndsFirm (roots ++ Text.trim name) := by
    by_cases empty : Text.trim name = []
    · rw [empty, List.append_nil]
      intro c last
      rw [rooted c (List.mem_of_getLast? last)]
      rfl
    · exact Text.endsFirm_append roots _ empty (Text.endsFirm_trimEnd _)
  unfold qualified
  rw [Text.trim_padded front _ behind before after starts ends,
    List.dropWhile_append_of_pos fun c member => by simp [rooted c member]]

theorem Respells.key_eq {name spelling : Text} (respells : Respells name spelling) : key spelling = key name := by
  obtain ⟨front, roots, spelling, behind, before, rooted, same, after⟩ := respells
  have lowered : Text.lower spelling = Text.trim (Text.lower name) := by
    rw [Text.trim_lower]
    simpa [Text.sameName] using same
  have blank (text : Text) (all : ∀ c ∈ text, Text.isBlank c = true) :
      ∀ c ∈ Text.lower text, Text.isBlank c = true := by
    intro c member
    obtain ⟨d, inside, rfl⟩ := List.mem_map.mp member
    rw [Text.isBlank_toLower, all d inside]
  have slashes : ∀ c ∈ Text.lower roots, c = '\\' := by
    intro c member
    obtain ⟨d, inside, rfl⟩ := List.mem_map.mp member
    rw [rooted d inside]
    rfl
  have split : Text.lower (front ++ (roots ++ spelling) ++ behind) =
      Text.lower front ++ (Text.lower roots ++ Text.lower spelling) ++ Text.lower behind := by
    simp [Text.lower]
  unfold key
  rw [← qualified_lower, ← qualified_lower, split, lowered,
    qualified_padded _ _ _ _ (blank front before) slashes (blank behind after)]

end MemberDoc.ClassName

namespace MemberDoc.Config

/-- A configuration is without faults exactly if every target names a class and a document and no class is named
twice; and then every spelling of a class leads to the document of its target, along the names of the base, of the
source root and of the file. -/
theorem path_of_respelling (config : Config) (base : Path) :
    (config.fault? = none ↔
        (∀ target ∈ config.classes, (Text.trim target.className).dropWhile (· == '\\') ≠ [] ∧
          ∃ c ∈ target.file, Text.isBlank c = false) ∧
        config.classes.Pairwise fun left right =>
          Text.lower (ClassName.qualified left.className) ≠ Text.lower (ClassName.qualified right.className)) ∧
      (config.fault? = none → ∀ target ∈ config.classes,
        (config.classMap base).path? target.className = some (config.documentPath base target) ∧
          (∀ spelling, ClassName.Respells target.className spelling →
            (config.classMap base).path? spelling = some (config.documentPath base target)) ∧
          Path.names (config.documentPath base target).text = config.place base target ∧
          (base.isAbsolute = true → (config.documentPath base target).text =
            '/' :: Text.joinWith ['/'] (config.place base target))) := by
  constructor
  · have filed (target : ClassTarget) : Text.trim target.file ≠ [] ↔ ∃ c ∈ target.file, Text.isBlank c = false := by
      rw [ne_eq, Text.trim_eq_nil_iff]
      simp
    unfold fault?
    rw [firstFault_eq_none_iff, List.Nodup, List.pairwise_map]
    simp only [filed, List.not_mem_nil, not_false_eq_true, implies_true, and_true]
    rfl
  · intro valid target member
    have own := config.path_classMap base valid target member
    refine ⟨own, fun spelling respells => ?_, config.names_documentPath base target,
      fun rooted => config.text_documentPath base rooted target⟩
    unfold ClassMap.path? at own ⊢
    rw [respells.key_eq]
    exact own

def catalogue : Config where
  sourceRoot := "./src//".toList
  reset := false
  overwrite := false
  classes :=
    [⟨" \\App\\Post".toList, "./Post.php".toList, [], [], [], []⟩, ⟨"Post".toList, "old/./Post.php".toList, [], [], [], []⟩]

theorem path_of_respelling_catalogue :
    catalogue.fault? = none ∧ ClassName.Respells " \\App\\Post".toList "\t\\\\aPP\\post ".toList ∧
      (catalogue.classMap ⟨"/site/.".toList⟩).path? "\t\\\\aPP\\post ".toList = some ⟨"/site/src/Post.php".toList⟩ ∧
      (catalogue.classMap ⟨"/site/.".toList⟩).path? "POST".toList = some ⟨"/site/src/old/Post.php".toList⟩ := by
  have valid : catalogue.fault? = none := by decide +kernel
  have first : ClassName.Respells " \\App\\Post".toList "\t\\\\aPP\\post ".toList :=
    .spelled "\t".toList "\\".toList "\\aPP\\post".toList " ".toList (Text.forall_of_all (by decide))
      (Text.forall_of_all (by decide)) (by decide) (Text.forall_of_all (by decide))
  have second : ClassName.Respells "Post".toList "POST".toList :=
    .spelled [] [] "POST".toList [] (Text.forall_of_all (by decide)) (Text.forall_of_all (by decide)) (by decide)
      (Text.forall_of_all (by decide))
  have law := (path_of_respelling catalogue ⟨"/site/.".toList⟩).2 valid
  obtain ⟨_, named, _, placed⟩ := law _ List.mem_cons_self
  obtain ⟨_, namedOther, _, placedOther⟩ := law _ (List.mem_cons_of_mem _ List.mem_cons_self)
  refine ⟨valid, first, ?_, ?_⟩
  · rw [named _ first, Option.some.injEq, Path.mk.injEq, placed rfl]
    decide +kernel
  · rw [namedOther _ second, Option.some.injEq, Path.mk.injEq, placedOther rfl]
    decide +kernel

end MemberDoc.Config
