import Rosette.Location
import Rosette.Text.LetterCase
import Rosette.Text.Quoted

/-!
# Tokens

Pattern text is a list of tokens: punctuation, words, runs of digits and quoted strings. The letters and
digits of the notation are those of ASCII.
-/

namespace Rosette

/-- The kinds of tokens, in their customary order. -/
inductive Token.Kind where
  | dollar
  | atSign
  | lparen
  | rparen
  | comma
  | colon
  | equals
  | lbracket
  | rbracket
  /-- A word with a fixed meaning. -/
  | identifier
  | number
  /-- Any other word. -/
  | symbol
  | string
  /-- The end of the input. -/
  | eof
deriving DecidableEq, Repr, Inhabited

/-- A token with the place of its first character. The value of a string is the text between its quotes. -/
structure Token where
  kind : Token.Kind
  value : String
  location : Location
deriving DecidableEq, Repr, Inhabited

namespace Token

/-- All kinds in order. -/
def Kind.all : List Kind :=
  [.dollar, .atSign, .lparen, .rparen, .comma, .colon, .equals, .lbracket, .rbracket, .identifier,
   .number, .symbol, .string, .eof]

/-- The name of a kind in messages. -/
def Kind.name : Kind → String
  | .dollar => "DOLLAR"
  | .atSign => "AT"
  | .lparen => "LPAREN"
  | .rparen => "RPAREN"
  | .comma => "COMMA"
  | .colon => "COLON"
  | .equals => "EQUALS"
  | .lbracket => "LBRACKET"
  | .rbracket => "RBRACKET"
  | .identifier => "IDENTIFIER"
  | .number => "NUMBER"
  | .symbol => "SYMBOL"
  | .string => "STRING"
  | .eof => "EOF"

/-- The kind of a punctuation character. -/
def punctuation? : Char → Option Kind
  | '$' => some .dollar
  | '@' => some .atSign
  | '(' => some .lparen
  | ')' => some .rparen
  | ',' => some .comma
  | ':' => some .colon
  | '=' => some .equals
  | '[' => some .lbracket
  | ']' => some .rbracket
  | _ => none

/-- The words with a fixed meaning: pattern commands, palette generators and colour spaces. -/
def keywords : List String :=
  ["seq", "mir", "space", "triadic", "complementary", "tetradic", "analogous", "rgb", "hsb"]

/-- Whether a word is a keyword, in capital or small letters. -/
def isKeyword (word : List Char) : Bool := keywords.contains (String.ofList (Text.foldAscii word))

/-- The end of the input, at a place. -/
def endAt (p : Location) : Token := ⟨.eof, "", p⟩

/-- The token as messages name it. -/
def describe (t : Token) : String := if t.kind = .eof then "end of input" else t.value

/-- A short form for debugging; a value of more than 20 characters is cut after 17. -/
def summary (t : Token) : String :=
  let value :=
    if 20 < t.value.length then String.ofList (t.value.toList.take 17) ++ "..." else t.value
  "Token(" ++ t.kind.name ++ ", " ++ Text.quoted value ++ ", " ++ t.location.text ++ ")"

end Token

end Rosette
