import MemberDoc.Text.Basic

set_option autoImplicit false

/-! How much two words resemble each other. Equal characters that stand near each other are
paired; the measure is the mean of the paired share of either word and of the share of pairs
that stand in order. -/

namespace MemberDoc.Text

/-- Characters of a word, each with whether it has been paired. -/
abbrev Pairing := List (Char × Bool)

/-- Pair a character with the first equal one that is free, behind a number of skipped places and
within a number of places. -/
def pair? (c : Char) : Nat → Nat → Pairing → Option Pairing
  | _, _, [] => none
  | skipped + 1, width, place :: rest => (pair? c skipped width rest).map (place :: ·)
  | 0, 0, _ :: _ => none
  | 0, width + 1, (other, paired) :: rest =>
      if other = c && !paired then some ((other, true) :: rest)
      else (pair? c 0 width rest).map ((other, paired) :: ·)

/-- Pair the characters of a word from left to right, starting at a position. Gives those that
found a partner. -/
def pairAll (reach : Nat) : Nat → Text → Pairing → Text × Pairing
  | _, [], pairing => ([], pairing)
  | position, c :: rest, pairing =>
      let skipped := position - reach
      match pair? c skipped (position + reach + 1 - skipped) pairing with
      | some pairing =>
          let (paired, last) := pairAll reach (position + 1) rest pairing
          (c :: paired, last)
      | none => pairAll reach (position + 1) rest pairing

/-- A number between zero for words without a pair and one for equal words. -/
def similarity (left right : Text) : Float :=
  if left = [] && right = [] then 1.0
  else
    let reach := max left.length right.length / 2 - 1
    let (ours, pairing) := pairAll reach 0 left (right.map fun c => (c, false))
    let theirs := (pairing.filter Prod.snd).map Prod.fst
    let pairs := ours.length
    let swaps := ((ours.zip theirs).filter fun (our, their) => our ≠ their).length / 2
    if pairs = 0 then 0.0
    else (pairs.toFloat / left.length.toFloat + pairs.toFloat / right.length.toFloat +
      (pairs - swaps).toFloat / pairs.toFloat) / 3.0

/-- Put a word behind all words of a list that are not more similar. -/
def insertSimilar (degree : Float) (word : Text) : List (Float × Text) → List (Float × Text)
  | [] => [(degree, word)]
  | (other, known) :: rest =>
      if degree < other then (degree, word) :: (other, known) :: rest
      else (other, known) :: insertSimilar degree word rest

/-- The known words that resemble a word, the most similar one last. -/
def similarTo (word : Text) (known : List Text) : List Text :=
  (known.foldl (fun found candidate =>
    let degree := similarity word candidate
    if 0.7 < degree then insertSimilar degree candidate found else found) []).map Prod.snd

def mostSimilar? (word : Text) (known : List Text) : Option Text :=
  (similarTo word known).getLast?

end MemberDoc.Text
