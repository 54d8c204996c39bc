import Rosette.Pattern.Word
import Rosette.Token.Basic

/-!
# The grammar of patterns

What a list of tokens means, said by derivations and without a reader:

    topLevel  := pattern [':' NUMBER]
    pattern   := sequence | command | symbol
    sequence  := '$' member member*
    member    := symbol | command
    command   := IDENTIFIER '(' arguments ')'
    arguments := [argument [',' arguments]]
    argument  := sequence | '@' (SYMBOL | IDENTIFIER) | command | symbol | NUMBER
    symbol    := SYMBOL

so a comma may stand behind the last argument. `nesting` counts the levels of a pattern, which the grammar does
not bound; `Fits` says that so many levels have room under a limit.
-/

namespace Rosette.Pattern

/-- What a list of tokens may be. -/
inductive Nonterminal where
  | symbol
  | member
  | members
  | sequence
  | command
  | argument
  | arguments
  | pattern
  | topLevel
deriving DecidableEq, Repr

/-- `Derives n ts ps`: the tokens `ts` are an `n` that means the patterns `ps`. There is one pattern, but for
members and arguments. -/
inductive Derives : Nonterminal → List Token → List Pattern → Prop where
  | symbol {t : Token} {p : Pattern} (kind : t.kind = .symbol) (word : ofWord t.value.toList = .ok p) :
      Derives .symbol [t] [p]
  | memberSymbol {ts : List Token} {p : Pattern} (d : Derives .symbol ts [p]) : Derives .member ts [p]
  | memberCommand {ts : List Token} {p : Pattern} (d : Derives .command ts [p]) : Derives .member ts [p]
  | noMembers : Derives .members [] []
  | moreMembers {ts us : List Token} {p : Pattern} {ps : List Pattern} (d : Derives .member ts [p])
      (ds : Derives .members us ps) : Derives .members (ts ++ us) (p :: ps)
  | sequence {dollar : Token} {ts us : List Token} {p : Pattern} {ps : List Pattern}
      (kind : dollar.kind = .dollar) (d : Derives .member ts [p]) (ds : Derives .members us ps) :
      Derives .sequence (dollar :: (ts ++ us)) [.sequence (p :: ps) .absent]
  | command {name opening closing : Token} {ts : List Token} {args : List Pattern}
      (kind : name.kind = .identifier) (opens : opening.kind = .lparen) (closes : closing.kind = .rparen)
      (ds : Derives .arguments ts args) :
      Derives .command (name :: opening :: (ts ++ [closing]))
        [.command (String.ofList (Text.foldAscii name.value.toList)) args .absent]
  | noArguments : Derives .arguments [] []
  | lastArgument {ts : List Token} {p : Pattern} (d : Derives .argument ts [p]) : Derives .arguments ts [p]
  | moreArguments {comma : Token} {ts us : List Token} {p : Pattern} {ps : List Pattern}
      (d : Derives .argument ts [p]) (kind : comma.kind = .comma) (ds : Derives .arguments us ps) :
      Derives .arguments (ts ++ comma :: us) (p :: ps)
  | argumentSequence {ts : List Token} {p : Pattern} (d : Derives .sequence ts [p]) : Derives .argument ts [p]
  | argumentReference {mark name : Token} (kind : mark.kind = .atSign)
      (named : name.kind = .symbol ∨ name.kind = .identifier) :
      Derives .argument [mark, name] [.reference name.value]
  | argumentCommand {ts : List Token} {p : Pattern} (d : Derives .command ts [p]) : Derives .argument ts [p]
  | argumentSymbol {ts : List Token} {p : Pattern} (d : Derives .symbol ts [p]) : Derives .argument ts [p]
  | argumentNumber {t : Token} {n : Nat} (kind : t.kind = .number) (value : Numeral.read t.value.toList = .ok n) :
      Derives .argument [t] [.symbol Stroke.spacerLetter false (.times n)]
  | patternSequence {ts : List Token} {p : Pattern} (d : Derives .sequence ts [p]) : Derives .pattern ts [p]
  | patternCommand {ts : List Token} {p : Pattern} (d : Derives .command ts [p]) : Derives .pattern ts [p]
  | patternSymbol {ts : List Token} {p : Pattern} (d : Derives .symbol ts [p]) : Derives .pattern ts [p]
  | plain {ts : List Token} {p : Pattern} (d : Derives .pattern ts [p]) : Derives .topLevel ts [p]
  | counted {colon number : Token} {ts : List Token} {p : Pattern} {n : Nat} (d : Derives .pattern ts [p])
      (mark : colon.kind = .colon) (kind : number.kind = .number)
      (value : Numeral.read number.value.toList = .ok n) :
      Derives .topLevel (ts ++ [colon, number]) [.elementCount p (.times n)]

/-! ## Nesting -/

mutual

/-- The most sequences and commands on a path from the root of a pattern. -/
def nesting : Pattern → Nat
  | .sequence patterns _ => nestingEach patterns + 1
  | .command _ args _ => nestingEach args + 1
  | .elementCount pattern _ => nesting pattern
  | _ => 0

/-- The greatest nesting of some patterns. -/
def nestingEach : List Pattern → Nat
  | [] => 0
  | p :: ps => max (nesting p) (nestingEach ps)

end

/-- Whether `n` levels have room under a limit, inside `depth` levels. No levels have room under any limit. -/
def Fits (limit : Int) (depth n : Nat) : Prop := n = 0 ∨ (depth : Int) + n ≤ limit

theorem fits_zero (limit : Int) (depth : Nat) : Fits limit depth 0 := .inl rfl

theorem fits_succ {limit : Int} {depth n : Nat} :
    Fits limit depth (n + 1) ↔ (depth : Int) + 1 ≤ limit ∧ Fits limit (depth + 1) n := by
  unfold Fits
  omega

theorem fits_max {limit : Int} {depth m n : Nat} :
    Fits limit depth (max m n) ↔ Fits limit depth m ∧ Fits limit depth n := by
  unfold Fits
  omega

theorem fits_nestingEach {limit : Int} {depth : Nat} {ps : List Pattern} :
    Fits limit depth (nestingEach ps) ↔ ∀ p ∈ ps, Fits limit depth p.nesting := by
  induction ps with
  | nil => simp [nestingEach, fits_zero]
  | cons p ps ih => simp [nestingEach, fits_max, ih]

end Rosette.Pattern
