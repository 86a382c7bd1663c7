import MemberDoc.Insertion
import MemberDoc.Proofs.ClassComment

set_option autoImplicit false

/-! Exchanging the doc block of a class. The block is looked up by its text, so it is the one attached
to the class exactly if that text does not occur any earlier in the source. -/

namespace MemberDoc.Insertion

open Source

/-- A source cut around one of its doc comments, which can be exchanged without any other comment
being lost or gained. -/
structure Surrounds (source : Text) (comment : DocComment) (lead tail : Text) : Prop where
  whole : source = lead ++ comment.text ++ tail
  start : Text.byteLength lead = comment.start
  exchange : ∀ block, IsComment block →
    docComments 0 .code (lead ++ block ++ tail) =
      docComments 0 .code lead ++ ⟨Text.byteLength lead, block⟩ ::
        docComments (Text.byteLength lead + Text.byteLength block) .code tail

private theorem surrounds_of_docComment (source className : Text) (site : Site)
    (known : site? source className = some site) (comment : DocComment)
    (attached : site.docComment source = some comment) :
    ∃ lead tail, Surrounds source comment lead tail := by
  obtain ⟨lead, opening, tail, cut⟩ := cut_of_site source className site known
  obtain ⟨front, behind, place, start, framed⟩ := cut.framed comment attached
  refine ⟨front, behind ++ (opening ++ tail), ?_, start, ?_⟩
  · rw [cut.whole, place]
    simp only [List.append_assoc]
  · intro block isBlock
    -- Both comments start with a slash, so what stands before them is read in the same way.
    have before := framed.before.swap (block ++ (behind ++ (opening ++ tail))) (by
      obtain ⟨inner, same, _⟩ := framed.isComment
      obtain ⟨other, rfl, _⟩ := isBlock
      rw [same]
      rfl)
    rw [List.append_assoc, before.docComments_append 0, isBlock.docComments_append, Nat.zero_add]

theorem placeBlock_first (source old lead tail : Text) (found : Text.splitFirst? old source = some (lead, tail))
    (block shortName : Text) : placeBlock source (some old) block shortName = lead ++ block ++ tail := by
  unfold placeBlock Text.replaceFirst
  dsimp only
  rw [found]

theorem placeBlock_before (source shortName lead tail : Text)
    (found : Text.splitFirst? ("class ".toList ++ shortName) source = some (lead, tail)) (block : Text) :
    placeBlock source none block shortName = lead ++ ((block ++ ['\n']) ++ (("class ".toList ++ shortName) ++ tail)) := by
  unfold placeBlock
  dsimp only
  rw [found]
  simp only [List.append_assoc]

theorem placeBlock_eq_iff (old lead tail shortName : Text) :
    (∀ block, placeBlock (lead ++ old ++ tail) (some old) block shortName = lead ++ block ++ tail) ↔
      Text.IsFirst old (lead ++ old ++ tail) lead := by
  obtain ⟨⟨before, behind⟩, found⟩ := Text.splitFirst_isSome old lead tail
  rw [← Text.fill_eq_iff old [] lead tail before behind found]
  apply forall_congr'
  intro block
  rw [placeBlock_first _ _ before behind found, List.append_assoc, List.append_assoc]
  rfl

/-- A new block takes the place of the comment attached to the class, for every block, exactly if the
text of that comment occurs nowhere earlier. Otherwise it takes the place of the first occurrence. -/
theorem placeBlock_own_iff (source className : Text) (outline : Outline)
    (known : Source.outline source className = .ok outline) (comment : DocComment)
    (attached : outline.docComment = some comment) (shortName : Text) :
    ∃ lead tail, Surrounds source comment lead tail ∧
      ((∀ block, placeBlock source (some comment.text) block shortName = lead ++ block ++ tail) ↔
        Text.IsFirst comment.text source lead) ∧
      ∃ first rest, source = first ++ comment.text ++ rest ∧ first.length ≤ lead.length ∧
        Text.IsFirst comment.text source first ∧
        ∀ block, placeBlock source (some comment.text) block shortName = first ++ block ++ rest := by
  obtain ⟨site, found, rfl⟩ := (outline_eq_ok_iff source className outline).mp known
  obtain ⟨lead, tail, surrounds⟩ := surrounds_of_docComment source className site found comment attached
  refine ⟨lead, tail, surrounds, ?_, ?_⟩
  · rw [surrounds.whole]
    exact placeBlock_eq_iff comment.text lead tail shortName
  · obtain ⟨⟨first, rest⟩, search⟩ := Text.splitFirst_isSome comment.text lead tail
    rw [← surrounds.whole] at search
    have earliest := Text.splitFirst_first comment.text source first rest search
    exact ⟨first, rest, Text.splitFirst_append comment.text source first rest search,
      earliest lead tail surrounds.whole, earliest,
      fun block => placeBlock_first source comment.text first rest search block shortName⟩

def twinSource : Text :=
  "<?php\n/** Same */\nclass A \x7b\x7d\n/** Same */\nclass B \x7b\x7d\n".toList

def twinComment : DocComment :=
  ⟨29, "/** Same */".toList⟩

def twinOutline : Outline where
  kind := .plain
  isAbstract := false
  parent := none
  properties := []
  methods := []
  docComment := some twinComment

def twinSite : Site :=
  (site? twinSource "B".toList).get (by decide +kernel)

theorem outline_twin : Source.outline twinSource "B".toList = .ok twinOutline :=
  (outline_eq_ok_iff _ _ _).mpr ⟨twinSite, by decide +kernel, by decide +kernel⟩

theorem placeBlock_own_iff_twin :
    Source.outline twinSource "B".toList = .ok twinOutline ∧ twinOutline.docComment = some twinComment ∧
      ∃ lead tail, Surrounds twinSource twinComment lead tail ∧
        ((∀ block, placeBlock twinSource (some twinComment.text) block "B".toList = lead ++ block ++ tail) ↔
          Text.IsFirst twinComment.text twinSource lead) ∧
        ∃ first rest, twinSource = first ++ twinComment.text ++ rest ∧ first.length ≤ lead.length ∧
          Text.IsFirst twinComment.text twinSource first ∧
          ∀ block, placeBlock twinSource (some twinComment.text) block "B".toList = first ++ block ++ rest :=
  ⟨outline_twin, rfl, placeBlock_own_iff twinSource "B".toList twinOutline outline_twin twinComment rfl "B".toList⟩

/-- The new block of the second class becomes that of the first, and the second keeps its old one. -/
theorem block_of_twin_replaced :
    Source.outline twinSource "B".toList = .ok twinOutline ∧
      placeBlock twinSource (some twinComment.text) "/** New */".toList "B".toList =
        "<?php\n/** New */\nclass A \x7b\x7d\n/** Same */\nclass B \x7b\x7d\n".toList ∧
      placeBlock twinSource (some twinComment.text) "/** New */".toList "B".toList ≠
        "<?php\n/** Same */\nclass A \x7b\x7d\n/** New */\nclass B \x7b\x7d\n".toList := by
  refine ⟨outline_twin, ?_, ?_⟩ <;> decide +kernel

end MemberDoc.Insertion
