import Rosette.Log
import Rosette.Pattern.Problem

/-!
# What can be wrong with a document

The causes for which a document is refused, each with its place in the source, and the notes on lines that
are passed over.
-/

namespace Rosette.Document

/-- Why a document is refused. -/
inductive Cause where
  /-- A line among the rings defines none. -/
  | badRing (line : String)
  /-- A line among the variables defines none. -/
  | badVariable (line : String)
  /-- A line of the palette has no name or no colour. -/
  | badColorLine (line : String)
  /-- An expression of the palette is no colour. -/
  | badColor (expression : String)
  /-- The pattern of a ring or a variable is refused. -/
  | pattern (cause : Pattern.Cause)
deriving DecidableEq, Repr

namespace Cause

def message : Cause → String
  | .badRing line => "Invalid ring definition: " ++ line
  | .badVariable line => "Invalid variable definition: " ++ line
  | .badColorLine line => "Invalid palette definition: " ++ line
  | .badColor expression => "Invalid color expression: " ++ expression
  | .pattern cause => cause.message

/-- The hint that goes with a cause, if there is one. -/
def suggestion? : Cause → Option String
  | .badRing _ => some "Expected O(<radius>, <count>): <pattern>"
  | .badVariable _ => some "Expected @name = <pattern>"
  | .badColorLine _ => some "Expected <A-Z> = <color>"
  | .badColor _ => some "Use rgb(r, g, b), hsb(h, s, b) or name(key: value, ...)"
  | .pattern cause => cause.suggestion?

end Cause

/-- A cause with its place in the source. -/
structure Problem where
  cause : Cause
  location : Location
deriving DecidableEq, Repr

/-- The problem as it is reported. -/
def Problem.diagnostic (p : Problem) : Diagnostic :=
  ⟨p.cause.message, p.location, p.cause.suggestion?⟩

/-- Why a source gives no document: a problem that is reported, or a number that is not read. -/
inductive Fault where
  | problem (problem : Problem)
  | numeral (fault : Numeral.Fault)
deriving DecidableEq, Repr

/-- What is reported about a source that is no document; a number that is not read is no such report. -/
def Fault.diagnostic? : Fault → Option Diagnostic
  | .problem p => some p.diagnostic
  | .numeral _ => none

/-- What is said about a run and the lines it passed over. -/
inductive Note where
  /-- A line outside the sections has the form of a ring, but its pattern is refused. -/
  | droppedRing (number : Nat) (cause : Cause)
  /-- A line outside the sections is no ring. -/
  | droppedLine (number : Nat) (line : String)
  /-- A line about the dot sets no property. -/
  | ignoredDotLine (number : Nat) (line : String)
  /-- The size of the dot is no number. -/
  | ignoredDotSize (number : Nat) (value : String)
  | unknownDotProperty (number : Nat) (name : String)
  /-- The source is a document. -/
  | complete (rings definitions : Nat)
deriving DecidableEq, Repr

/-- The note as an entry of the log. -/
def Note.entry (n : Note) : Log.Entry :=
  ⟨.debug, Log.channelName "document",
    match n with
    | .droppedRing number cause => "Dropped line " ++ toString number ++ ": " ++ cause.message
    | .droppedLine number line =>
      "Dropped unrecognized line " ++ toString number ++ ": " ++ Text.quoted line
    | .ignoredDotLine number line =>
      "Ignored dot line " ++ toString number ++ ": " ++ Text.quoted line
    | .ignoredDotSize number value =>
      "Ignored dot size " ++ Text.quoted value ++ " on line " ++ toString number
    | .unknownDotProperty number name =>
      "Ignored dot property " ++ Text.quoted name ++ " on line " ++ toString number
    | .complete rings definitions =>
      "Parsed document: " ++ toString rings ++ " rings, " ++ toString definitions ++ " variables"⟩

end Rosette.Document
