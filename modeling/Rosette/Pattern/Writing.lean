import Rosette.Misfit
import Rosette.Numeral
import Rosette.Pattern.Basic
import Rosette.Stroke.Letter
import Rosette.Text.Call
import Rosette.Text.Word

/-!
# Writing patterns

The canonical text of a pattern. A sequence of stroke letters is written as a word, any other sequence with
`$` and its members side by side; a repeat count on a sequence or a command becomes a call of `seq`. A
pattern that the grammar cannot express where it stands is refused.
-/

namespace Rosette.Pattern

namespace Writing

/-- Why a pattern has no text. -/
inductive Fault where
  /-- An element count may stand at the top only. -/
  | innerElementCount
  /-- A reference may stand as an argument only. -/
  | outerReference (name : String)
  | notPattern (typeName : String)
  | emptySequence
  /-- The pattern may not be a member of a sequence. -/
  | notMember (typeName : String)
  /-- The pattern may not be an argument. -/
  | notArgument (typeName : String)
  | numeral (fault : Numeral.Fault)
  | misfit (misfit : Misfit)
deriving DecidableEq, Repr

/-- The text of a count. -/
def countText (count : Count) : Except Fault (List Char) := count.text.mapError .numeral

/-- The text of a symbol: its letter, capital if rotated, and its count. The mark of a solid ring stands
alone. -/
def symbolText (char : String) (rotated : Bool) (count : Count) : Except Fault (List Char) :=
  if char = Stroke.solidMark then .ok char.toList
  else if count.isAbsent then .ok (Stroke.letterText char rotated)
  else (countText count).map (Stroke.letterText char rotated ++ ·)

/-- Whether a pattern is a stroke letter. -/
def isLetter (p : Pattern) : Bool :=
  match p.symbol? with
  | some (char, _, _) => Stroke.alphabet.contains char
  | none => false

/-- Whether the members of a sequence are what a word of several letters writes. -/
def isWord (patterns : List Pattern) : Bool := 1 < patterns.length && patterns.all isLetter

/-- The text of a word: its letters side by side, each with its count. -/
def wordText : List Pattern → Except Fault (List Char)
  | [] => .ok []
  | p :: ps =>
    match p.symbol? with
    | none => .ok []
    | some (char, rotated, count) => do
      let t ← symbolText char rotated count
      let ts ← wordText ps
      .ok (t ++ ts)

/-- Two texts side by side, with a space where they would merge into one word. -/
def glue (left right : List Char) : List Char :=
  match left.getLast?, right.head? with
  | some a, some b =>
    if Text.isAlphanumeric a && Text.isAlphanumeric b then left ++ ' ' :: right else left ++ right
  | _, _ => left ++ right

/-- A text, put into a call of `seq` if there is a repeat count. -/
def repeatedText (count : Count) (inner : List Char) : Except Fault (List Char) :=
  if count.isAbsent then .ok inner
  else do
    let t ← countText count
    .ok (Text.call ['s', 'e', 'q'] [inner, t])

/-- A sequence from the text of its members, which may not be empty. -/
def sequenceText (body : List Char) : Except Fault (List Char) :=
  if body.isEmpty then .error .emptySequence else .ok ('$' :: body)

/-! ### Values among patterns -/

/-- The value in the place of the text of a symbol whose letter is no text. -/
def bare? : Pattern → Option Value
  | .other (.record .symbol [.text _, _, _]) => none
  | .other (.record .symbol [letter, rotated, .null]) => if rotated.truthy then none else some letter
  | _ => none

/-- The text of a symbol whose letter is no text: the letter as it is shown, if nothing is done to it. -/
def bareText (letter : Value) (rotated : Bool) (count : Count) : Except Fault (List Char) := do
  let v ← (Stroke.letterValue letter rotated).mapError .misfit
  if count.isAbsent then .ok v.plain
  else do
    let _ ← countText count
    .error (.misfit (.notBefore v.typeName))

/-- The text of a value that is no pattern. A symbol may have one; `fault` is for values that are no symbol,
sequence or command. -/
def valueText (fault : Fault) : Value → Except Fault (List Char)
  | .record .symbol [.text char, rotated, n] => symbolText char rotated.truthy (.ofValue n)
  | .record .symbol [letter, rotated, n] => bareText letter rotated.truthy (.ofValue n)
  | .record .sequence [patterns, .null] => .error (.misfit (.noLength patterns.typeName))
  | .record .sequence (patterns :: _) => .error (.misfit (.noMembers patterns.typeName))
  | .record .command (_ :: args :: _) => .error (.misfit (.noMembers args.typeName))
  | _ => .error fault

/-- What is wrong with a value behind the text of earlier members. Where that ends in a letter or a digit,
the beginning of the value is looked at. -/
def behindMisfit (before : List Char) (v : Value) : Misfit :=
  if v.truthy && (before.getLast?.map Text.isAlphanumeric).getD false then
    match v with
    | .list (.text _ :: _) => .notBehind v.typeName
    | .list (first :: _) => .noField first.typeName "isalnum"
    | v => .noFirst v.typeName
  else .notBehind v.typeName

/-- The text of earlier members with that of a member behind it. -/
def behind (before : List Char) (p : Pattern) (t : List Char) : Except Fault (List Char) :=
  match bare? p with
  | none => .ok (glue before t)
  | some v => .error (.misfit (behindMisfit before v))

/-- What is wrong with the first argument whose text is none, where arguments are counted from `index`. -/
def argumentMisfit? (index : Nat) : List Pattern → Option Misfit
  | [] => none
  | p :: ps =>
    match bare? p with
    | none => argumentMisfit? (index + 1) ps
    | some v => some (.notText index v.typeName)

/-- The call of a command with the texts of its arguments. -/
def callText (name : String) (args : List Pattern) (parts : List (List Char)) :
    Except Fault (List Char) :=
  match argumentMisfit? 0 args with
  | none => .ok (Text.call name.toList parts)
  | some m => .error (.misfit m)

/-! ### The places of a pattern -/

mutual

/-- The text of a pattern that stands alone. -/
def topText : Pattern → Except Fault (List Char)
  | .symbol char rotated count => symbolText char rotated count
  | .sequence patterns count =>
    if count.isAbsent && isWord patterns then wordText patterns
    else do
      let body ← bodyText [] patterns
      let inner ← sequenceText body
      repeatedText count inner
  | .command name args count => do
    let parts ← argumentTexts args
    let inner ← callText name args parts
    repeatedText count inner
  | .elementCount _ _ => .error .innerElementCount
  | .reference name => .error (.outerReference name)
  | .other v => valueText (.notPattern v.typeName) v

/-- The text of a member of a sequence. A sequence inside a sequence dissolves in it. -/
def memberText : Pattern → Except Fault (List Char)
  | .symbol char rotated count => symbolText char rotated count
  | .sequence patterns count =>
    if count.isAbsent && isWord patterns then wordText patterns
    else do
      let body ← bodyText [] patterns
      if count.isAbsent then .ok body
      else do
        let inner ← sequenceText body
        repeatedText count inner
  | .command name args count => do
    let parts ← argumentTexts args
    let inner ← callText name args parts
    repeatedText count inner
  | .other v => valueText (.notMember v.typeName) v
  | p => .error (.notMember p.typeName)

/-- The text of the members of a sequence, behind the text of earlier ones. -/
def bodyText (before : List Char) : List Pattern → Except Fault (List Char)
  | [] => .ok before
  | p :: ps => do
    let t ← memberText p
    let body ← behind before p t
    bodyText body ps

/-- The text of an argument. An upright spacer with a count is written as a bare number. -/
def argumentText : Pattern → Except Fault (List Char)
  | .symbol char rotated count =>
    if char = Stroke.spacerLetter && !rotated && !count.isAbsent then countText count
    else symbolText char rotated count
  | .sequence patterns count =>
    if count.isAbsent && isWord patterns then wordText patterns
    else do
      let body ← bodyText [] patterns
      let inner ← sequenceText body
      repeatedText count inner
  | .command name args count => do
    let parts ← argumentTexts args
    let inner ← callText name args parts
    repeatedText count inner
  | .reference name => .ok ('@' :: name.toList)
  | .other v => valueText (.notArgument v.typeName) v
  | p => .error (.notArgument p.typeName)

/-- The texts of the arguments of a command. -/
def argumentTexts : List Pattern → Except Fault (List (List Char))
  | [] => .ok []
  | p :: ps => do
    let t ← argumentText p
    let ts ← argumentTexts ps
    .ok (t :: ts)

end

def Fault.message : Fault → String
  | .innerElementCount => "Element count is only allowed at the top level"
  | .outerReference name =>
    "Variable reference @" ++ name ++ " is only allowed as a command argument"
  | .notPattern typeName => "Cannot format " ++ typeName
  | .emptySequence => "Cannot format an empty sequence"
  | .notMember typeName => typeName ++ " cannot appear inside a sequence"
  | .notArgument typeName => typeName ++ " cannot appear as a command argument"
  | .numeral f => f.message
  | .misfit m => m.message

end Writing

/-- The text of a pattern, with its element count if it has one at the top. -/
def text : Pattern → Except Writing.Fault (List Char)
  | .elementCount pattern count => do
    let t ← Writing.topText pattern
    let n ← Writing.countText count
    .ok (t ++ ':' :: n)
  | p => Writing.topText p

/-- The text of a pattern as a value. A symbol whose letter is no text is written as that letter. -/
def textValue (p : Pattern) : Except Writing.Fault Value :=
  match Writing.bare? p with
  | none => p.text.map fun t => .text (.ofList t)
  | some v => .ok v

end Rosette.Pattern
