import Rosette.Binary64.Reading
import Rosette.Json.Basic
import Rosette.Numeral

/-!
# Reading JSON

A text is one document with white space around it. `Infinity`, `-Infinity` and `NaN` are numbers too, and of
members with one name the last counts. Each reader takes a piece off the front of the text and says that
fewer characters are left; that measure ends the loops.
-/

namespace Rosette.Json

/-- Why a text is no document. -/
inductive Fault where
  | malformed
  | numeral (fault : Numeral.Fault)
deriving DecidableEq, Repr

/-- What a reader took off a text: a value, and the shorter text that is left. -/
structure Taken (α : Type) (before : List Char) where
  value : α
  rest : List Char
  shorter : rest.length < before.length

/-- The white space between the parts of a document. -/
def isGap (c : Char) : Bool := c == ' ' || c == '\t' || c == '\n' || c == '\r'

/-- The text without the white space in front. -/
def skipGap (cs : List Char) : List Char := cs.dropWhile isGap

theorem length_dropWhile_le {α : Type} (p : α → Bool) (l : List α) :
    (l.dropWhile p).length ≤ l.length :=
  (List.dropWhile_sublist p).length_le

theorem length_skipGap_le (cs : List Char) : (skipGap cs).length ≤ cs.length :=
  length_dropWhile_le isGap cs

/-! ## Strings -/

/-- The value of a hexadecimal digit. -/
def hexValue? (c : Char) : Option Nat :=
  if '0' ≤ c ∧ c ≤ '9' then some (c.toNat - '0'.toNat)
  else if 'a' ≤ c ∧ c ≤ 'f' then some (c.toNat - 'a'.toNat + 10)
  else if 'A' ≤ c ∧ c ≤ 'F' then some (c.toNat - 'A'.toNat + 10)
  else none

/-- The 16-bit unit written by four hexadecimal digits. -/
def unit? (a b c d : Char) : Option Nat := do
  let a ← hexValue? a
  let b ← hexValue? b
  let c ← hexValue? c
  let d ← hexValue? d
  some (((a * 16 + b) * 16 + c) * 16 + d)

/-- The character of a one-letter escape. -/
def unescape? : Char → Option Char
  | '"' => some '"'
  | '\\' => some '\\'
  | '/' => some '/'
  | 'b' => some '\x08'
  | 'f' => some '\x0c'
  | 'n' => some '\n'
  | 'r' => some '\r'
  | 't' => some '\t'
  | _ => none

/-- Characters from code points and 16-bit units: a high and a low unit in a row make one character, and one
without the other becomes the replacement character. -/
def joinUnits : List Nat → List Char
  | [] => []
  | [n] => [if 0xd800 ≤ n ∧ n < 0xe000 then '\ufffd' else Char.ofNat n]
  | h :: l :: rest =>
    if 0xd800 ≤ h ∧ h < 0xdc00 ∧ 0xdc00 ≤ l ∧ l < 0xe000 then
      Char.ofNat (0x10000 + (h - 0xd800) * 0x400 + (l - 0xdc00)) :: joinUnits rest
    else (if 0xd800 ≤ h ∧ h < 0xe000 then '\ufffd' else Char.ofNat h) :: joinUnits (l :: rest)

/-- The code points and units of a string up to its closing quote, and what follows that. -/
def takeUnits : List Char → Option (List Nat × List Char)
  | [] => none
  | '"' :: rest => some ([], rest)
  | '\\' :: 'u' :: a :: b :: c :: d :: rest => do
    let n ← unit? a b c d
    let (ns, rest) ← takeUnits rest
    some (n :: ns, rest)
  | '\\' :: e :: rest => do
    let c ← unescape? e
    let (ns, rest) ← takeUnits rest
    some (c.toNat :: ns, rest)
  | c :: rest =>
    if c = '\\' || c.toNat < 0x20 then none
    else do
      let (ns, rest) ← takeUnits rest
      some (c.toNat :: ns, rest)

theorem length_takeUnits_lt {cs rest : List Char} {ns : List Nat}
    (h : takeUnits cs = some (ns, rest)) : rest.length < cs.length := by
  fun_induction takeUnits cs generalizing ns rest with
  | case1 => cases h
  | case2 => cases h; simp
  | case3 a b c d cs ih =>
    simp only [Option.bind_eq_bind, Option.bind_eq_some_iff, Prod.exists, Option.some.injEq,
      Prod.mk.injEq] at h
    obtain ⟨n, -, ms, r, hr, -, rfl⟩ := h
    have := ih hr
    simp only [List.length_cons]; omega
  | case4 e cs _ ih =>
    simp only [Option.bind_eq_bind, Option.bind_eq_some_iff, Prod.exists, Option.some.injEq,
      Prod.mk.injEq] at h
    obtain ⟨n, -, ms, r, hr, -, rfl⟩ := h
    have := ih hr
    simp only [List.length_cons]; omega
  | case5 => cases h
  | case6 c cs _ _ _ _ ih =>
    simp only [Option.bind_eq_bind, Option.bind_eq_some_iff, Prod.exists, Option.some.injEq,
      Prod.mk.injEq] at h
    obtain ⟨ms, r, hr, -, rfl⟩ := h
    have := ih hr
    simp only [List.length_cons]; omega

/-- The string behind an opening quote. -/
def takeText (cs : List Char) : Except Fault (Taken String cs) :=
  match h : takeUnits cs with
  | none => .error .malformed
  | some (ns, rest) => .ok ⟨String.ofList (joinUnits ns), rest, length_takeUnits_lt h⟩

/-! ## Numbers -/

/-- The digits of a whole number at the front of a text: a zero alone, or digits with no zero in front. -/
def wholeDigits : List Char → List Char
  | [] => []
  | c :: cs =>
    if c = '0' then ['0'] else if c.isDigit then c :: cs.takeWhile Char.isDigit else []

/-- A point and digits at the front of a text, if they are there. -/
def fractionPart : List Char → List Char
  | '.' :: cs =>
    match cs.takeWhile Char.isDigit with
    | [] => []
    | ds => '.' :: ds
  | _ => []

/-- An exponent with ASCII digits at the front of a text, if it is there. -/
def exponentPart : List Char → List Char
  | [] => []
  | mark :: cs =>
    if mark = 'e' || mark = 'E' then
      let (sign, rest) := Binary64.splitSign cs
      match rest.takeWhile Char.isDigit with
      | [] => []
      | ds => mark :: sign ++ ds
    else []

/-- The number whose sign and whole digits are given; `rest` follows the digits. A number with a fraction or
an exponent is a binary64 number, any other a whole one. -/
def number (negative : Bool) (whole rest : List Char) : Except Fault (Json × Nat) :=
  let fraction := fractionPart rest
  let exponent := exponentPart (rest.drop fraction.length)
  let numeral := (if negative then ['-'] else []) ++ whole ++ fraction ++ exponent
  if fraction.isEmpty && exponent.isEmpty then
    match Numeral.read whole with
    | .error f => .error (.numeral f)
    | .ok n => .ok (.int (if negative then -(n : Int) else n), 0)
  else
    match Binary64.ofNumeral? numeral with
    | none => .error .malformed
    | some x => .ok (.float x, fraction.length + exponent.length)

/-- Takes the number that begins with the sign and the whole digits given. -/
def takeNumber (negative : Bool) (c : Char) (cs : List Char) : Except Fault (Taken Json (c :: cs)) :=
  match wholeDigits (c :: cs) with
  | [] => .error .malformed
  | d :: ds =>
    let rest := cs.drop ds.length
    match number negative (d :: ds) rest with
    | .error f => .error f
    | .ok (value, extra) =>
      .ok ⟨value, rest.drop extra, by simp only [rest, List.length_drop, List.length_cons]; omega⟩

/-! ## Documents -/

/-- Takes a word that stands for a value. -/
def takeWord (word : List Char) (value : Json) (c : Char) (cs : List Char) :
    Except Fault (Taken Json (c :: cs)) :=
  if word.isPrefixOf cs then
    .ok ⟨value, cs.drop word.length, by simp only [List.length_drop, List.length_cons]; omega⟩
  else .error .malformed

mutual

/-- Takes a document, which has to begin at once. -/
def takeValue : (cs : List Char) → Except Fault (Taken Json cs)
  | [] => .error .malformed
  | '"' :: cs =>
    match takeText cs with
    | .error f => .error f
    | .ok t => .ok ⟨.text t.value, t.rest, by have := t.shorter; simp only [List.length_cons]; omega⟩
  | '[' :: cs =>
    match h : skipGap cs with
    | ']' :: rest =>
      .ok ⟨.list [], rest, by
        have := length_skipGap_le cs; simp only [h, List.length_cons] at *; omega⟩
    | _ =>
      match takeItems (skipGap cs) with
      | .error f => .error f
      | .ok t => .ok ⟨.list t.value, t.rest, by
          have := length_skipGap_le cs; have := t.shorter; simp only [List.length_cons]; omega⟩
  | '\x7b' :: cs =>
    match h : skipGap cs with
    | '\x7d' :: rest =>
      .ok ⟨.object [], rest, by
        have := length_skipGap_le cs; simp only [h, List.length_cons] at *; omega⟩
    | _ =>
      match takeMembers (skipGap cs) with
      | .error f => .error f
      | .ok t => .ok ⟨.object (Table.ofList t.value), t.rest, by
          have := length_skipGap_le cs; have := t.shorter; simp only [List.length_cons]; omega⟩
  | 'n' :: cs => takeWord "ull".toList .null 'n' cs
  | 't' :: cs => takeWord "rue".toList (.bool true) 't' cs
  | 'f' :: cs => takeWord "alse".toList (.bool false) 'f' cs
  | 'N' :: cs => takeWord "aN".toList (.float .nan) 'N' cs
  | 'I' :: cs => takeWord "nfinity".toList (.float (.infinite false)) 'I' cs
  | '-' :: 'I' :: cs =>
    match takeWord "nfinity".toList (.float (.infinite true)) 'I' cs with
    | .error f => .error f
    | .ok t => .ok ⟨t.value, t.rest, by have := t.shorter; simp only [List.length_cons] at *; omega⟩
  | '-' :: c :: cs =>
    match takeNumber true c cs with
    | .error f => .error f
    | .ok t => .ok ⟨t.value, t.rest, by have := t.shorter; simp only [List.length_cons] at *; omega⟩
  | c :: cs => takeNumber false c cs
termination_by cs => (cs.length, 0)
decreasing_by
  all_goals have := length_skipGap_le cs
  all_goals simp only [List.length_cons, Prod.lex_def]; omega

/-- Takes the items of a list and its closing bracket. -/
def takeItems (cs : List Char) : Except Fault (Taken (List Json) cs) :=
  match takeValue cs with
  | .error f => .error f
  | .ok v =>
    match h : skipGap v.rest with
    | ']' :: rest => .ok ⟨[v.value], rest, by
        have := length_skipGap_le v.rest; have := v.shorter
        simp only [h, List.length_cons] at *; omega⟩
    | ',' :: rest =>
      match takeItems (skipGap rest) with
      | .error f => .error f
      | .ok t => .ok ⟨v.value :: t.value, t.rest, by
          have := length_skipGap_le v.rest; have := length_skipGap_le rest
          have := v.shorter; have := t.shorter
          simp only [h, List.length_cons] at *; omega⟩
    | _ => .error .malformed
termination_by (cs.length, 1)
decreasing_by
  · simp [Prod.lex_def]
  · have := length_skipGap_le v.rest; have := length_skipGap_le rest; have := v.shorter
    simp only [h, List.length_cons, Prod.lex_def] at *; omega

/-- Takes the members of an object and its closing brace. -/
def takeMembers : (cs : List Char) → Except Fault (Taken (List (String × Json)) cs)
  | '"' :: cs =>
    match takeText cs with
    | .error f => .error f
    | .ok k =>
      match hk : skipGap k.rest with
      | ':' :: afterColon =>
        match takeValue (skipGap afterColon) with
        | .error f => .error f
        | .ok v =>
          match hv : skipGap v.rest with
          | '\x7d' :: rest => .ok ⟨[(k.value, v.value)], rest, by
              have := length_skipGap_le k.rest; have := length_skipGap_le afterColon
              have := length_skipGap_le v.rest; have := k.shorter; have := v.shorter
              simp only [hk, hv, List.length_cons] at *; omega⟩
          | ',' :: rest =>
            match takeMembers (skipGap rest) with
            | .error f => .error f
            | .ok t => .ok ⟨(k.value, v.value) :: t.value, t.rest, by
                have := length_skipGap_le k.rest; have := length_skipGap_le afterColon
                have := length_skipGap_le v.rest; have := length_skipGap_le rest
                have := k.shorter; have := v.shorter; have := t.shorter
                simp only [hk, hv, List.length_cons] at *; omega⟩
          | _ => .error .malformed
      | _ => .error .malformed
  | _ => .error .malformed
termination_by cs => (cs.length, 1)
decreasing_by
  · have := length_skipGap_le k.rest; have := length_skipGap_le afterColon; have := k.shorter
    simp only [hk, List.length_cons, Prod.lex_def] at *; omega
  · have := length_skipGap_le k.rest; have := length_skipGap_le afterColon
    have := length_skipGap_le v.rest; have := length_skipGap_le rest
    have := k.shorter; have := v.shorter
    simp only [hk, hv, List.length_cons, Prod.lex_def] at *; omega

end

/-- The document a text holds. -/
def read (source : String) : Except Fault Json :=
  match takeValue (skipGap source.toList) with
  | .error f => .error f
  | .ok t => if (skipGap t.rest).isEmpty then .ok t.value else .error .malformed

end Rosette.Json
