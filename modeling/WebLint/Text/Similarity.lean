import WebLint.Text

/-!
# Similarity of words

How alike two words are, from 0 to 1, as measured by Jaro: by the share of
characters of each that occur in the other at nearly the same place, and by
how many of these stand in another order.
-/

namespace WebLint
namespace Similarity

/-- The characters of a word, each with whether it has found a partner. -/
abbrev Marked := List (Char × Bool)

/-- Give a partner to a character: the first character that has none, is the
same, and whose number, counted from `index`, lies in `low..high`. -/
def markPartner (c : Char) (low high index : Nat) : Marked → Option Marked
  | [] => none
  | (d, taken) :: rest =>
    if low ≤ index ∧ index < high ∧ c = d ∧ !taken then some ((d, true) :: rest)
    else (markPartner c low high (index + 1) rest).map ((d, taken) :: ·)

/-- Pair the characters of a word, the first one having the number `index`,
with those of another one that are at most `reach` places away: the characters
that find a partner, and the other word with the partners marked. -/
def pairUp (reach index : Nat) : Text → Marked → Text × Marked
  | [], other => ([], other)
  | c :: rest, other =>
    match markPartner c (index - reach) (index + reach + 1) 0 other with
    | some other =>
      let after := pairUp reach (index + 1) rest other
      (c :: after.1, after.2)
    | none => pairUp reach (index + 1) rest other

/-- The number of places at which two words differ. -/
def differences (a b : Text) : Nat := (a.zip b).countP fun p => p.1 != p.2

/-- How alike two words are. -/
def jaro (a b : Text) : Float :=
  if a.isEmpty && b.isEmpty then 1
  else if a.isEmpty || b.isEmpty then 0
  else
    let reach := max a.length b.length / 2 - 1
    let (paired, marked) := pairUp reach 0 a (b.map fun c => (c, false))
    let partners := (marked.filter (·.2)).map (·.1)
    let count := paired.length
    if count = 0 then 0
    else
      let swaps := differences paired partners / 2
      let share (n of : Nat) : Float := n.toFloat / of.toFloat
      (share count a.length + share count b.length + share (count - swaps) count) / 3

/-- The similarity two words must exceed for one to be taken for the other. -/
def threshold : Float := 0.7

/-- The one of some words that is most like a given one, if any is alike.  Of
equally similar ones it is the last. -/
def best? (word : String) (words : List String) : Option String :=
  let alike := (words.map fun w => (w, jaro word.toList w.toList)).filter (·.2 > threshold)
  (alike.foldl (fun best next =>
    match best with
    | none => some next
    | some b => if next.2 ≥ b.2 then some next else some b) none).map (·.1)

end Similarity
end WebLint
