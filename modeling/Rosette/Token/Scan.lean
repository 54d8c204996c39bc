import Rosette.Token.Basic

/-!
# From text to tokens

At each place of a text a lexeme begins or a character is passed over. A lexeme is as long as it can be: a
punctuation character, a run of digits, a letter with the letters and digits behind it, or a quoted string
up to the same quote or the end of the text. White space and characters of no lexeme leave no token, so
every text has a list of tokens.
-/

namespace Rosette.Token

/-- A piece of text that makes a token: `span` is all of it, `value` is what the token carries. -/
structure Lexeme where
  kind : Kind
  value : List Char
  span : List Char

/-- The lexeme at the front of a text, if one begins there. -/
def Lexeme.read? : List Char → Option Lexeme
  | [] => none
  | c :: cs =>
    match punctuation? c with
    | some kind => some ⟨kind, [c], [c]⟩
    | none =>
      if c = '"' || c = '\'' then
        let value := cs.takeWhile (· != c)
        some ⟨.string, value, c :: value ++ (cs.dropWhile (· != c)).take 1⟩
      else if c.isDigit then
        let run := (c :: cs).takeWhile Char.isDigit
        some ⟨.number, run, run⟩
      else if c.isAlpha then
        let run := (c :: cs).takeWhile Char.isAlphanum
        some ⟨if isKeyword run then .identifier else .symbol, run, run⟩
      else none

/-- The tokens of a text that begins at `p`, without the end, and the place where the text ends. -/
def scan (p : Location) : List Char → List Token × Location
  | [] => ([], p)
  | c :: cs =>
    match Lexeme.read? (c :: cs) with
    | none => scan (p.advance c) cs
    | some l =>
      -- a span is never empty: what follows it begins after `c`
      let (tokens, stop) := scan (p.after l.span) (cs.drop (l.span.length - 1))
      (⟨l.kind, String.ofList l.value, p⟩ :: tokens, stop)
termination_by cs => cs.length
decreasing_by
  · simp
  · simp only [List.length_drop, List.length_cons]; omega

/-- A text being turned into tokens: what is left of it and where that begins. -/
structure Scanner where
  rest : List Char
  location : Location := .start

/-- All tokens of what is left, with the end behind them, and the scanner at that end. -/
def Scanner.run (s : Scanner) : List Token × Scanner :=
  let (tokens, stop) := scan s.location s.rest
  (tokens ++ [endAt stop], ⟨[], stop⟩)

/-- The tokens of a source text, ending with the one for its end. -/
def tokenize (source : String) : List Token := (Scanner.run ⟨source.toList, .start⟩).1

end Rosette.Token
