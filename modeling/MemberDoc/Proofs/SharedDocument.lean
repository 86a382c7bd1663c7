import MemberDoc.Proofs.TargetPartition
import MemberDoc.Proofs.TreeWrites

set_option autoImplicit false

/-! Documents that are named in more than one way. A double dot leads to the folder above, so paths that pass
different names can lead to one place; targets with such paths are in different groups, although they share a
document. Without double dots this does not happen. -/

namespace MemberDoc.Path

def arrive (folder : List Text) : List Text → List Text
  | [] => folder
  | name :: names => arrive (if name = ['.', '.'] then folder.dropLast else folder ++ [name]) names

@[simp] theorem arrive_append (folder left right : List Text) :
    arrive folder (left ++ right) = arrive (arrive folder left) right := by
  induction left generalizing folder with
  | nil => rfl
  | cons name left ih => exact ih _

theorem arrive_down (folder names : List Text) (down : ['.', '.'] ∉ names) : arrive folder names = folder ++ names := by
  induction names generalizing folder with
  | nil => rw [arrive, List.append_nil]
  | cons name names ih =>
      have plain : name ≠ ['.', '.'] := fun same => down (by rw [same]; exact List.mem_cons_self)
      rw [arrive, if_neg plain, ih _ fun later => down (List.mem_cons_of_mem name later), List.append_assoc,
        List.singleton_append]

end MemberDoc.Path

namespace MemberDoc.Tree

theorem walk_eq_arrive (tree : Tree) (folder segments found : List Text)
    (followed : tree.walk folder segments = .ok found) :
    found = Path.arrive folder (segments.filter fun segment => !Path.isRedundant segment) := by
  induction segments generalizing folder with
  | nil =>
      cases followed
      rfl
  | cons segment segments ih =>
      rw [walk] at followed
      split at followed
      · cases followed
      · cases followed
      · split at followed
        · rename_i redundant
          rw [List.filter_cons_of_neg (by simp [redundant])]
          exact ih folder followed
        · rename_i counts
          rw [List.filter_cons_of_pos (by simp [counts]), Path.arrive]
          split at followed
          · rename_i up
            rw [if_pos up]
            exact ih _ followed
          · rename_i down
            rw [if_neg down]
            split at followed
            · cases followed
            · split at followed
              · exact ih _ followed
              · cases followed

private theorem locate_eq_arrive (tree : Tree) (path : Path) (found : List Text)
    (located : tree.locate path = .ok found) :
    found = Path.arrive [] (Path.names path.text) := by
  unfold locate at located
  split at located
  · cases located
  · exact tree.walk_eq_arrive [] _ found located

private theorem target_eq_arrive (tree : Tree) (path : Path) (found : List Text)
    (targeted : tree.target path = .ok found) :
    found = Path.arrive [] (Path.names path.text) := by
  obtain ⟨above, last, folder, writable, rfl⟩ := tree.target_eq_ok path found targeted
  have reached := tree.walk_eq_arrive [] above folder writable.followed
  have own : [last].filter (fun segment => !Path.isRedundant segment) = [last] :=
    List.filter_cons_of_pos (by simp [writable.counts])
  rw [Path.names, writable.segments, List.filter_append, Path.arrive_append, ← reached, own, Path.arrive,
    if_neg writable.below, Path.arrive]

end MemberDoc.Tree

namespace MemberDoc.Config

/-- The place of the document of a target, wherever its path can be followed. -/
def destination (config : Config) (base : Path) (target : ClassTarget) : List Text :=
  Path.arrive [] (config.place base target)

/-- The path of a target passes a folder above the one it has come to. -/
def Climbs (config : Config) (base : Path) (target : ClassTarget) : Prop :=
  ['.', '.'] ∈ config.place base target

instance (config : Config) (base : Path) (target : ClassTarget) : Decidable (config.Climbs base target) :=
  inferInstanceAs (Decidable (['.', '.'] ∈ config.place base target))

private theorem destination_of_not_climbs (config : Config) (base : Path) (target : ClassTarget)
    (down : ¬ config.Climbs base target) : config.destination base target = config.place base target :=
  Path.arrive_down [] _ down

end MemberDoc.Config

namespace MemberDoc.TargetGroup

def Apart (groups : List TargetGroup) (left right : ClassTarget) : Prop :=
  ∀ group ∈ groups, ¬ (left ∈ group.targets ∧ right ∈ group.targets)

instance (groups : List TargetGroup) (left right : ClassTarget) : Decidable (Apart groups left right) :=
  inferInstanceAs (Decidable (∀ group ∈ groups, ¬ (left ∈ group.targets ∧ right ∈ group.targets)))

private theorem apart_iff_place_ne (config : Config) (base : Path) (valid : config.fault? = none)
    (rooted : base.isAbsolute = true) (left right : ClassTarget) (isLeft : left ∈ config.classes)
    (isRight : right ∈ config.classes) :
    Apart (ofTargets (config.classMap base) config.classes) left right ↔
      config.place base left ≠ config.place base right := by
  have together := together_iff_place config base valid rooted left right isLeft isRight
  rw [ne_eq, ← together, not_exists]
  exact forall_congr' fun group => not_and.symm

/-- Targets of different groups work on different documents as long as no double dot leads up. Of two targets with
one document, those are in different groups whose paths pass different names: this takes a double dot in one of the
paths, and a double dot in only one of them is enough. -/
theorem shared_document_iff (config : Config) (base : Path) (valid : config.fault? = none)
    (rooted : base.isAbsolute = true) :
    (∀ (tree : Tree) (target : ClassTarget) (place : List Text), target ∈ config.classes →
        (tree.locate (pathOf (config.classMap base) target) = .ok place ∨
          tree.target (pathOf (config.classMap base) target) = .ok place) →
        place = config.destination base target) ∧
      ∀ left ∈ config.classes, ∀ right ∈ config.classes,
        (Apart (ofTargets (config.classMap base) config.classes) left right →
          ¬ config.Climbs base left → ¬ config.Climbs base right →
            config.destination base left ≠ config.destination base right) ∧
        (config.destination base left = config.destination base right →
          (Apart (ofTargets (config.classMap base) config.classes) left right ↔
            config.place base left ≠ config.place base right) ∧
          (config.Climbs base left → ¬ config.Climbs base right →
            Apart (ofTargets (config.classMap base) config.classes) left right)) := by
  constructor
  · intro tree target place member reached
    rw [pathOf_classMap config base valid target member] at reached
    unfold Config.destination
    rw [← config.names_documentPath base target]
    rcases reached with located | targeted
    · exact tree.locate_eq_arrive _ place located
    · exact tree.target_eq_arrive _ place targeted
  · intro left isLeft right isRight
    have apart := apart_iff_place_ne config base valid rooted left right isLeft isRight
    refine ⟨fun split leftDown rightDown one => ?_, fun _ => ⟨apart, fun leftUp rightDown => ?_⟩⟩
    · rw [config.destination_of_not_climbs base left leftDown,
        config.destination_of_not_climbs base right rightDown] at one
      exact apart.mp split one
    · refine apart.mpr fun same => rightDown ?_
      unfold Config.Climbs at leftUp ⊢
      rw [← same]
      exact leftUp

/-- Two classes of one document, one of which is given through a folder beside it, and a class of another document
between them. -/
def stall : Config where
  sourceRoot := "./".toList
  reset := false
  overwrite := false
  classes :=
    [⟨"Cart".toList, "lib/../Shop.php".toList, [], [], [], []⟩, ⟨"Note".toList, "Note.php".toList, [], [], [], []⟩,
      ⟨"Shop".toList, "Shop.php".toList, [], [], [], []⟩]

def stallBase : Path :=
  ⟨"/site".toList⟩

def stallCart : ClassTarget :=
  ⟨"Cart".toList, "lib/../Shop.php".toList, [], [], [], []⟩

def stallShop : ClassTarget :=
  ⟨"Shop".toList, "Shop.php".toList, [], [], [], []⟩

def stallTree : Tree :=
  ⟨[(["site".toList], .folder), (["site".toList, "lib".toList], .folder),
    (["site".toList, "Shop.php".toList], .document (.text "<?php class Shop \x7b\x7d class Cart \x7b\x7d".toList) true)]⟩

theorem shared_document_iff_stall :
    stall.fault? = none ∧ stallBase.isAbsolute = true ∧ stallCart ∈ stall.classes ∧ stallShop ∈ stall.classes ∧
      stall.Climbs stallBase stallCart ∧ ¬ stall.Climbs stallBase stallShop ∧
      stall.destination stallBase stallCart = stall.destination stallBase stallShop ∧
      Apart (ofTargets (stall.classMap stallBase) stall.classes) stallCart stallShop := by
  have valid : stall.fault? = none := by decide +kernel
  have isCart : stallCart ∈ stall.classes := by decide +kernel
  have isShop : stallShop ∈ stall.classes := by decide +kernel
  have up : stall.Climbs stallBase stallCart := by decide +kernel
  have down : ¬ stall.Climbs stallBase stallShop := by decide +kernel
  have one : stall.destination stallBase stallCart = stall.destination stallBase stallShop := by decide +kernel
  have laws := (shared_document_iff stall stallBase valid rfl).2 stallCart isCart stallShop isShop
  exact ⟨valid, rfl, isCart, isShop, up, down, one, (laws.2 one).2 up down⟩

/-- Different groups can read and write one document. -/
theorem one_document_in_two_groups :
    stall.fault? = none ∧ stallBase.isAbsolute = true ∧ stallCart ∈ stall.classes ∧ stallShop ∈ stall.classes ∧
      Apart (ofTargets (stall.classMap stallBase) stall.classes) stallCart stallShop ∧
      stall.destination stallBase stallCart = stall.destination stallBase stallShop ∧
      stallTree.locate (pathOf (stall.classMap stallBase) stallCart) = .ok ["site".toList, "Shop.php".toList] ∧
      stallTree.locate (pathOf (stall.classMap stallBase) stallShop) = .ok ["site".toList, "Shop.php".toList] :=
  ⟨by decide +kernel, rfl, by decide +kernel, by decide +kernel, by decide +kernel, by decide +kernel,
    eq_ok_of_toOption (by decide +kernel), eq_ok_of_toOption (by decide +kernel)⟩

end MemberDoc.TargetGroup
