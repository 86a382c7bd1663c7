import MemberDoc.DocBlock.Tag

set_option autoImplicit false

/-! The canonical order of tags: unknown tags, static methods, other methods, then properties by
access, and within each group by text. -/

namespace MemberDoc.Tag

/-- Names of ordered tags; the position is the rank. -/
def rankedNames : List Text :=
  [[], "method".toList, "property-write".toList, "property-read".toList, "property".toList]

def rank? (tag : Tag) : Option Nat :=
  rankedNames.idxOf? tag.name

/-- Tags that precede all ranked ones. -/
def isLeading (tag : Tag) : Bool :=
  tag.isStaticMethod || tag.rank?.isNone

/-- Order by rank and then by text; an unknown tag ranks lowest. -/
def precedes (left right : Tag) : Bool :=
  let leftRank := left.rank?.getD 0
  let rightRank := right.rank?.getD 0
  leftRank < rightRank || (leftRank == rightRank && Text.isAtMost left.render right.render)

def sort (tags : List Tag) : List Tag :=
  (tags.filter isLeading).mergeSort precedes ++
    (tags.filter fun tag => !tag.isLeading).mergeSort precedes

end MemberDoc.Tag
