import Rosette.Document.Reading
import Rosette.Document.Record
import Rosette.Document.Writing
import Rosette.Json.Reading
import Rosette.Json.Writing
import Rosette.Pattern.Row
import Rosette.Pattern.Shorthand
import Rosette.Proofs.Numeral
import Rosette.Record.Storage
import Rosette.Proofs.Token.Composition
import Rosette.Proofs.Pattern.Grammar
import Rosette.Proofs.Pattern.Descent
import Rosette.Proofs.Pattern.Recognition
import Rosette.Proofs.Pattern.Word
import Rosette.Proofs.Pattern.Canonical
import Rosette.Proofs.Pattern.RoundTrip
import Rosette.Proofs.Pattern.Unrolling
import Rosette.Proofs.Binary64.Characters
import Rosette.Proofs.Table
import Rosette.Proofs.Text.LetterCase
import Rosette.Proofs.Traversal
import Rosette.Proofs.Color.RoundTrip
import Rosette.Proofs.Document.Pass
import Rosette.Proofs.Document.Invariant
import Rosette.Proofs.Document.Lines
import Rosette.Proofs.Document.RoundTrip
import Rosette.Proofs.Location
import Rosette.Proofs.Pattern.Depth
import Rosette.Proofs.Document.Places
import Rosette.Proofs.Document.Concatenation
import Rosette.Proofs.Token.Lexeme
import Rosette.Proofs.Token.Munch
import Rosette.Proofs.Token.Translation
import Rosette.Proofs.Pattern.Shorthand
import Rosette.Proofs.Record.RoundTrip
import Rosette.Proofs.Binary64.RoundTrip
import Rosette.Proofs.Json.Reading
import Rosette.Proofs.Pattern.Settings
import Rosette.Proofs.Pattern.RepeatCount
import Rosette.Proofs.Pattern.Faithful
import Rosette.Proofs.Answer
import Rosette.Proofs.Token.Cut
import Rosette.Proofs.Pattern.Locality
import Rosette.Proofs.Pattern.Trailing
import Rosette.Proofs.Pattern.Relocation
import Rosette.Proofs.Pattern.Layout
import Rosette.Proofs.Pattern.Refusal
import Rosette.Proofs.Pattern.BreakingToken
import Rosette.Proofs.Binary64.Magnitude
import Rosette.Proofs.Binary64.SixPlaces
import Rosette.Proofs.Document.Numbers
import Rosette.Proofs.Pattern.Mirror
import Rosette.Proofs.Pattern.Expander
import Rosette.Proofs.Pattern.Reader
import Rosette.Proofs.Pattern.ReadBack
import Rosette.Proofs.Pattern.Tiling
import Rosette.Proofs.Token.Walk
import Rosette.Proofs.Binary64.DecimalNumeral
import Rosette.Proofs.Pattern.LongCounts
import Rosette.Proofs.Pattern.Respelling
import Rosette.Proofs.Pattern.Cursor
import Rosette.Proofs.Pattern.CursorRun
