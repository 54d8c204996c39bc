/-!
# Repetition

Lists repeated a given number of times, and tiled to a given length. A count below one gives nothing. A
count that does not fit into a signed word of 64 bits is refused, even where the list is empty.
-/

namespace Rosette.Repetition

variable {α : Type}

/-- Whether a count fits into a signed word of 64 bits. -/
def fits (n : Int) : Bool := -9223372036854775808 ≤ n && n ≤ 9223372036854775807

/-- The list `n` times over. -/
def copies (n : Int) (l : List α) : List α :=
  if l.isEmpty then [] else (List.replicate n.toNat l).flatten

/-- The list `n` times over, or `none` if the count is too large in size. -/
def copies? (n : Int) (l : List α) : Option (List α) :=
  if fits n then some (copies n l) else none

/-- The list over and over, cut to `n` members: whole copies and a part of one. Division rounds down, so a
negative `n` that is no multiple of the length leaves the part. -/
def tile? (n : Int) (l : List α) : Option (List α) :=
  if l.isEmpty then some []
  else (copies? (n.fdiv l.length) l).map (· ++ l.take (n.fmod l.length).toNat)

/-- An empty list has nothing to repeat, so the definition on it is the general one. -/
theorem copies_eq_flatten_replicate (n : Int) (l : List α) :
    copies n l = (List.replicate n.toNat l).flatten := by
  cases l <;> simp [copies]

end Rosette.Repetition
