import Rosette.Text.LetterCase.Context
import Rosette.Text.LetterCase.Table

/-!
# Letter case

`lower` and `upper` map a whole text to small or capital letters, in every script. A letter may turn
into several characters (`ß` becomes `SS`), and the capital sigma becomes `ς` at the end of a word and
`σ` elsewhere. `foldAscii` moves the 26 Latin capitals only.
-/

namespace Rosette.Text

open LetterCase

/-- The text with the 26 Latin capitals made small and all else kept. -/
def foldAscii (cs : List Char) : List Char := cs.map Char.toLower

/-- One letter made small, out of context. -/
def lowerChar (c : Char) : List Char :=
  if c = 'İ' then ['i', '\u0307'] else [Char.ofNat (moved lowerRuns c.toNat)]

/-- One letter made capital. -/
def upperChar (c : Char) : List Char :=
  match upperExpansions.lookup c.toNat with
  | some ns => ns.map Char.ofNat
  | none => [Char.ofNat (moved upperRuns c.toNat)]

/-- The text in small letters, where `before` is what precedes it, nearest first. -/
def lowerAfter (before : List Char) : List Char → List Char
  | [] => []
  | c :: cs =>
    -- a capital sigma that ends its word: something cased before it and nothing cased after it
    if c = 'Σ' && meetsCased before && !meetsCased cs then
      'ς' :: lowerAfter (c :: before) cs
    else lowerChar c ++ lowerAfter (c :: before) cs

/-- The text in small letters. -/
def lower (cs : List Char) : List Char := lowerAfter [] cs

/-- The text in capital letters. -/
def upper (cs : List Char) : List Char := cs.flatMap upperChar

end Rosette.Text
