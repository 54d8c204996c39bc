import Rosette.Text.Blank
import Rosette.Token.Scan

/-!
# Scanning character by character

A scanner moves over one character at a time and counts line, column and offset as it goes. A line feed starts a line
where white space is skipped and inside a quoted string. Every other character is one column, and so is what makes a
mark, a word or a number, what opens and closes a string, and what is passed over.
-/

namespace Rosette

namespace Location

/-- One column on. -/
def nextColumn (p : Location) : Location := { p with column := p.column + 1, offset := p.offset + 1 }

/-- One character on, where a line begins. -/
def nextLine (p : Location) : Location := { line := p.line + 1, column := 1, offset := p.offset + 1 }

end Location

namespace Token.Scanner

/-- The characters of one class that come next, and the scanner behind them. -/
def readWhile (accept : Char → Bool) : List Char → Location → List Char × Scanner
  | [], p => ([], ⟨[], p⟩)
  | c :: cs, p =>
    if accept c then
      let (run, s) := readWhile accept cs p.nextColumn
      (c :: run, s)
    else ([], ⟨c :: cs, p⟩)

/-- What comes before the quote, or before the end where there is no quote, and the scanner there. -/
def readQuoted (quote : Char) : List Char → Location → List Char × Scanner
  | [], p => ([], ⟨[], p⟩)
  | c :: cs, p =>
    if c = quote then ([], ⟨c :: cs, p⟩)
    else
      let (value, s) := readQuoted quote cs (if c = '\n' then p.nextLine else p.nextColumn)
      (c :: value, s)

/-- Over the quote that closes a string, if it is there. -/
def close (s : Scanner) : Scanner :=
  match s.rest with
  | [] => s
  | _ :: cs => ⟨cs, s.location.nextColumn⟩

/-- Over the character `c` with `cs` behind it: the token that begins with it, if one does, and the scanner behind what
was read. -/
def next (c : Char) (cs : List Char) (p : Location) : Option Token × Scanner :=
  if Text.isBlank c then (none, ⟨cs, if c = '\n' then p.nextLine else p.nextColumn⟩)
  else
    match punctuation? c with
    | some kind => (some ⟨kind, String.ofList [c], p⟩, ⟨cs, p.nextColumn⟩)
    | none =>
      if c = '"' || c = '\'' then
        let (value, s) := readQuoted c cs p.nextColumn
        (some ⟨.string, String.ofList value, p⟩, s.close)
      else if c.isDigit then
        let (run, s) := readWhile Char.isDigit (c :: cs) p
        (some ⟨.number, String.ofList run, p⟩, s)
      else if c.isAlpha then
        let (run, s) := readWhile Char.isAlphanum (c :: cs) p
        (some ⟨if isKeyword run then .identifier else .symbol, String.ofList run, p⟩, s)
      else (none, ⟨cs, p.nextColumn⟩)

/-! ## Every step reads something -/

theorem length_readWhile_le (accept : Char → Bool) (cs : List Char) (p : Location) :
    (readWhile accept cs p).2.rest.length ≤ cs.length := by
  induction cs generalizing p with
  | nil => exact Nat.le_refl 0
  | cons c cs ih =>
    rw [readWhile]
    split
    · exact Nat.le_succ_of_le (ih _)
    · exact Nat.le_refl _

theorem length_readWhile_cons_le {accept : Char → Bool} {c : Char} (h : accept c = true) (cs : List Char)
    (p : Location) : (readWhile accept (c :: cs) p).2.rest.length ≤ cs.length := by
  rw [readWhile, if_pos h]
  exact length_readWhile_le accept cs _

theorem length_readQuoted_le (quote : Char) (cs : List Char) (p : Location) :
    (readQuoted quote cs p).2.rest.length ≤ cs.length := by
  induction cs generalizing p with
  | nil => exact Nat.le_refl 0
  | cons c cs ih =>
    rw [readQuoted]
    split
    · exact Nat.le_refl _
    · exact Nat.le_succ_of_le (ih _)

theorem length_close_le (s : Scanner) : s.close.rest.length ≤ s.rest.length := by
  obtain ⟨rest, p⟩ := s
  cases rest with
  | nil => exact Nat.le_refl 0
  | cons c cs => exact Nat.le_succ _

theorem length_next_le (c : Char) (cs : List Char) (p : Location) : (next c cs p).2.rest.length ≤ cs.length := by
  rw [next]
  split
  · exact Nat.le_refl _
  split
  · exact Nat.le_refl _
  split
  · exact Nat.le_trans (length_close_le _) (length_readQuoted_le c cs _)
  split
  · rename_i hdigit
    exact length_readWhile_cons_le hdigit cs p
  split
  · rename_i halpha
    exact length_readWhile_cons_le (by simp [Char.isAlphanum, halpha]) cs p
  · exact Nat.le_refl _

/-- All tokens of what is left, with the end behind them, and the scanner at that end. -/
def walk : Scanner → List Token × Scanner
  | ⟨[], p⟩ => ([endAt p], ⟨[], p⟩)
  | ⟨c :: cs, p⟩ =>
    let (tokens, stop) := walk (next c cs p).2
    ((next c cs p).1.toList ++ tokens, stop)
termination_by s => s.rest.length
decreasing_by exact Nat.lt_succ_of_le (length_next_le c cs p)

end Token.Scanner

end Rosette
