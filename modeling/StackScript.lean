import StackScript.Main
import StackScript.Machine.Run
import StackScript.Tree.Printer
import StackScript.Proofs.Unit.History
import StackScript.Proofs.Machine.Steady
import StackScript.Proofs.Machine.Steps
import StackScript.Proofs.Segment.Exec
import StackScript.Proofs.Meaning.Operations
import StackScript.Proofs.Meaning.Expression
import StackScript.Proofs.Meaning.Statement
import StackScript.Proofs.Meaning.Compiled
import StackScript.Proofs.Machine.Kinds
import StackScript.Proofs.StackCheck.Depths
import StackScript.Proofs.Machine.Accepted
import StackScript.Proofs.Unit.Kinds
import StackScript.Proofs.Segment.Escapes
import StackScript.Proofs.Unit.Escapes
import StackScript.Proofs.Unit.Modes
import StackScript.Proofs.Compile.Structured
import StackScript.Proofs.Compile.Growth
import StackScript.Proofs.Segment.Correspond
import StackScript.Proofs.Unit.Isolated
import StackScript.Proofs.Unit.Displaced
import StackScript.Proofs.Compile.Room
import StackScript.Proofs.Unit.Limits
import StackScript.Proofs.Unit.GivenUp
import StackScript.Proofs.Unit.Shared
import StackScript.Proofs.Listing.Lines
import StackScript.Proofs.Compile.Matching
import StackScript.Proofs.Compile.Equality
import StackScript.Proofs.Unit.Equality
import StackScript.Proofs.Json.Lexing
import StackScript.Proofs.Json.Parsing
import StackScript.Proofs.Number.Numerals
import StackScript.Proofs.Json.Spellings
import StackScript.Proofs.Tree.Spellings
import StackScript.Proofs.Tree.Reading
import StackScript.Proofs.Tree.RoundTrip
import StackScript.Proofs.Command.Outcome
import StackScript.Proofs.Compile.Lowering
import StackScript.Proofs.Compile.Watched
import StackScript.Proofs.Unit.Watched
import StackScript.Proofs.Compile.Cut
import StackScript.Proofs.Unit.Cut
import StackScript.Proofs.Number.Parts
import StackScript.Proofs.Number.Decimals
import StackScript.Proofs.Number.Search
import StackScript.Proofs.Number.RoundTrip
import StackScript.Proofs.Segment.Names
import StackScript.Proofs.Tree.Texts
import StackScript.Proofs.Unit.Invariant
import StackScript.Proofs.Unit.Names
import StackScript.Proofs.Segment.Flow
import StackScript.Proofs.Segment.Depth
import StackScript.Proofs.Segment.Completion
import StackScript.Proofs.Unit.Reports
import StackScript.Proofs.Segment.Regions
import StackScript.Proofs.Segment.Fragments
import StackScript.Proofs.Machine.Control
import StackScript.Proofs.Unit.Regions
import StackScript.Proofs.Meaning.Endings
import StackScript.Proofs.Meaning.Respelling
import StackScript.Proofs.Segment.InStep
import StackScript.Proofs.Unit.Paraphrases
import StackScript.Proofs.Meaning.Growth
import StackScript.Proofs.Meaning.NumericKeys
import StackScript.Proofs.Unit.Flattening
import StackScript.Proofs.Command.Colours
import StackScript.Proofs.Machine.Closed
import StackScript.Proofs.Meaning.Literals
import StackScript.Proofs.Meaning.Effects
import StackScript.Proofs.Code.Edits
