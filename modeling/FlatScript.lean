import FlatScript.Main
import FlatScript.Proofs.Grammar.Expression
import FlatScript.Proofs.Parsing.Expression
import FlatScript.Proofs.Grammar.Statement
import FlatScript.Proofs.Parsing.Statement
import FlatScript.Proofs.Grammar.Unambiguous
import FlatScript.Proofs.Parsing.Program
import FlatScript.Proofs.Lexing.Pieces
import FlatScript.Proofs.Lexing.Spelling
import FlatScript.Proofs.Trees.WellFormed
import FlatScript.Proofs.Trees.Printing
import FlatScript.Proofs.Trees.RoundTrip
import FlatScript.Proofs.Eval.Dependence
import FlatScript.Proofs.Eval.NonInterference
import FlatScript.Proofs.Eval.Footprint
import FlatScript.Proofs.Trees.Measures
import FlatScript.Proofs.Eval.Coupling
import FlatScript.Proofs.Eval.CallDepth
import FlatScript.Proofs.Eval.Termination
import FlatScript.Proofs.Lexing.Tiling
import FlatScript.Proofs.Lexing.MaximalMunch
import FlatScript.Proofs.Lexing.Joining
import FlatScript.Proofs.Trees.Joining
import FlatScript.Proofs.Eval.Operators
import FlatScript.Proofs.Parsing.Lookahead
import FlatScript.Proofs.Parsing.FirstError
import FlatScript.Proofs.Eval.CutShort
import FlatScript.Proofs.Eval.TopLevelReturn
import FlatScript.Proofs.Eval.ConsumedInput
import FlatScript.Proofs.Eval.RefusedWrites
import FlatScript.Proofs.Hosts.LineEnds
import FlatScript.Proofs.Lexing.Spacing
import FlatScript.Proofs.Eval.TestedOnce
import FlatScript.Proofs.CommandLine.Modes
import FlatScript.Proofs.Parsing.Walk
import FlatScript.Proofs.Parsing.Positions
import FlatScript.Proofs.Parsing.Sessions
import FlatScript.Proofs.Eval.LastReturn
import FlatScript.Proofs.Eval.Arithmetic
import FlatScript.Proofs.Lexing.Escaping
import FlatScript.Proofs.Lexing.EscapeSequences
import FlatScript.Proofs.Lexing.FirstFault
import FlatScript.Proofs.Sources.Locations
import FlatScript.Proofs.Parsing.EndTokens
import FlatScript.Proofs.Eval.IntegerLiterals
import FlatScript.Proofs.Eval.HiddenFunctions
import FlatScript.Proofs.Eval.Comparisons
import FlatScript.Proofs.CommandLine.Listing
import FlatScript.Proofs.Lexing.LiteralExtent
import FlatScript.Proofs.Lexing.Patterns
