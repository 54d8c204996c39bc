import Rosette.Color.Reading
import Rosette.Document.Basic
import Rosette.Document.Line
import Rosette.Document.LineForm
import Rosette.Document.Problem
import Rosette.Pattern.Reading

/-!
# From lines to documents

A section runs from its header to a blank line, the next header or the end. Each line is read on its own: in
the sections of rings, variables and colours the first bad line ends the run; in those of the dot and the
guides bad lines are passed over. A line outside the sections is a ring or passed over. What was read before a
failure stays, and another run adds to it.
-/

namespace Rosette.Document

open Text

/-- What a run has come to: the document so far, the notes on the way, and why it ended early if it did. -/
structure Outcome where
  document : Document
  notes : List Note := []
  fault? : Option Fault := none

namespace Outcome

/-- The outcome of a further step, which is not taken after a fault. -/
def andThen (o : Outcome) (step : Document → Outcome) : Outcome :=
  match o.fault? with
  | some _ => o
  | none =>
    let next := step o.document
    { next with notes := o.notes ++ next.notes }

/-- A failure that leaves the document as it is. -/
def failed (d : Document) (fault : Fault) : Outcome := ⟨d, [], some fault⟩

/-- A failure at a place. -/
def refused (d : Document) (cause : Cause) (location : Location) : Outcome :=
  failed d (.problem ⟨cause, location⟩)

/-- The outcome of a step on each line in order, up to a fault. -/
def eachLine (step : Document → Line → Outcome) (d : Document) : List Line → Outcome
  | [] => ⟨d, [], none⟩
  | l :: ls => (step d l).andThen fun d => eachLine step d ls

end Outcome

open Outcome

/-! ## Patterns and rings -/

/-- The pattern of a piece of a line. Problems are placed in the source. -/
def patternOf (s : Settings) (l : Line) (t : Tail) : Except Fault Pattern :=
  match Pattern.parse s (String.ofList t.text) with
  | .ok p => .ok p
  | .error (.numeral f) => .error (.numeral f)
  | .error (.problem p) =>
    .error (.problem ⟨.pattern p.cause,
      p.location.shifted (l.number - 1) (l.indent + t.column) (l.offset + t.column)⟩)

/-- The pattern of a ring, which may be the mark of a solid one. -/
def ringPatternOf (s : Settings) (l : Line) (t : Tail) : Except Fault Pattern :=
  if trim t.text = Stroke.solidMark.toList then .ok .solid else patternOf s l t

/-- The ring that a line defines, if it has the form of one. -/
def ringOf (s : Settings) (l : Line) : Except Fault (Option Ring) :=
  match ringForm? l.text with
  | none => .ok none
  | some form =>
    match Binary64.ofNumeral? form.radius with
    | none => .ok none
    | some radius =>
      match Numeral.read form.count with
      | .error f => .error (.numeral f)
      | .ok count =>
        let (text, colors) := splitColors form.pattern.text
        match ringPatternOf s l ⟨text, form.pattern.column⟩ with
        | .error f => .error f
        | .ok pattern => .ok (some ⟨.float radius, .times count, pattern, colors⟩)

/-! ## Lines -/

/-- A line of the rings. -/
def ringLine (s : Settings) (d : Document) (l : Line) : Outcome :=
  match ringOf s l with
  | .error f => failed d f
  | .ok none => refused d (.badRing (String.ofList l.text)) l.location
  | .ok (some r) => { document := { d with rings := d.rings ++ [r] } }

/-- A line outside the sections. -/
def looseLine (s : Settings) (d : Document) (l : Line) : Outcome :=
  match ringOf s l with
  | .error (.numeral f) => failed d (.numeral f)
  | .error (.problem p) => ⟨d, [.droppedRing l.number p.cause], none⟩
  | .ok none => ⟨d, [.droppedLine l.number (String.ofList l.text)], none⟩
  | .ok (some r) => { document := { d with rings := d.rings ++ [r] } }

/-- A line about the dot. -/
def dotLine (dot : Dot) (l : Line) : Dot × List Note :=
  match propertyForm? l.text with
  | none => (dot, [.ignoredDotLine l.number (String.ofList l.text)])
  | some form =>
    let value := form.value.text
    match String.ofList form.name with
    | "size" =>
      match Binary64.leading? value with
      | none => (dot, [.ignoredDotSize l.number (String.ofList value)])
      | some size => ({ dot with size := some (.float size) }, [])
    | "color" => ({ dot with color := some (String.ofList value) }, [])
    | "visible" => ({ dot with visible := some (lower value == ['t', 'r', 'u', 'e']) }, [])
    | name => (dot, [.unknownDotProperty l.number name])

/-- A line of the variables. -/
def variableLine (s : Settings) (d : Document) (l : Line) : Outcome :=
  match variableForm? l.text with
  | none => refused d (.badVariable (String.ofList l.text)) l.location
  | some form =>
    match patternOf s l form.value with
    | .error f => failed d f
    | .ok p => { document := { d with definitions := d.definitions ++ [⟨String.ofList form.name, p⟩] } }

/-- A line of the palette. -/
def paletteLine (d : Document) (l : Line) : Outcome :=
  match paletteForm? l.text with
  | none => refused d (.badColorLine (String.ofList l.text)) l.location
  | some form =>
    match Color.ofExpression form.value.text with
    | .error f => failed d (.numeral f)
    | .ok none =>
      refused d (.badColor (String.ofList form.value.text)) (l.location form.value.column)
    | .ok (some c) =>
      { document :=
          { d with palette := some (Table.put (d.palette.getD []) (String.ofList form.name) c) } }

/-! ## Sections -/

/-- The lines about the dot, each of which may replace what earlier ones say. -/
def readDot (dot : Dot) : List Line → Dot × List Note
  | [] => (dot, [])
  | l :: ls =>
    let (dot, notes) := dotLine dot l
    let (dot, more) := readDot dot ls
    (dot, notes ++ more)

/-- The lines of the palette. A palette that begins with a section that fails is dropped. -/
def readPalette (d : Document) (body : List Line) : Outcome :=
  let o := eachLine paletteLine { d with palette := some (d.palette.getD []) } body
  if o.fault?.isSome && d.palette.isNone then
    { o with document := { o.document with palette := none } }
  else o

/-- The lines of a section. A section about the dot replaces all earlier ones. -/
def readSection (s : Settings) (d : Document) (body : List Line) : Section → Outcome
  | .rings => eachLine (ringLine s) d body
  | .dot =>
    let (dot, notes) := readDot {} body
    ⟨{ d with dot := some dot }, notes, none⟩
  | .guides => { document := { d with guides := true } }
  | .definitions => eachLine (variableLine s) d body
  | .palette => readPalette d body

/-- Whether a line goes on with the section it stands in. -/
def Line.continues (l : Line) : Bool := !l.isEmpty && l.header?.isNone

/-- All lines, section by section. -/
def readLines (s : Settings) (d : Document) : List Line → Outcome
  | [] => { document := d }
  | l :: ls =>
    if l.isEmpty || l.isComment then readLines s d ls
    else
      match l.header? with
      | none => (looseLine s d l).andThen fun d => readLines s d ls
      | some sec =>
        let body := (ls.takeWhile Line.continues).filter fun l => !l.isComment
        (readSection s d body sec).andThen fun d => readLines s d (ls.dropWhile Line.continues)
termination_by ls => ls.length
decreasing_by
  · simp
  · simp
  · have := (List.dropWhile_sublist Line.continues (l := ls)).length_le
    simp only [List.length_cons]; omega

/-! ## Runs -/

/-- A source being read: its lines and the document so far. -/
structure Reader where
  lines : List Line
  document : Document := {}

/-- A reader at the start of a source. -/
def Reader.ofSource (source : String) : Reader := { lines := Line.ofSource source.toList }

/-- Reads all lines and adds what they say to the document so far. -/
def Reader.run (r : Reader) (s : Settings) : Except Fault Document × Reader × List Note :=
  let o := readLines s r.document r.lines
  let r := { r with document := o.document }
  match o.fault? with
  | some f => (.error f, r, o.notes)
  | none =>
    (.ok o.document, r,
      o.notes ++ [.complete o.document.rings.length o.document.definitions.length])

/-- The document that a source writes. -/
def parse (s : Settings) (source : String) : Except Fault Document :=
  ((Reader.ofSource source).run s).1

end Rosette.Document
