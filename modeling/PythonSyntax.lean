import PythonSyntax.Cursor.TokenList
import PythonSyntax.Main
import PythonSyntax.Proofs.Lexical.Coverage
import PythonSyntax.Proofs.Parsing.Lossless
import PythonSyntax.Proofs.Parsing.Precedence
import PythonSyntax.Proofs.Parsing.Completeness
import PythonSyntax.Proofs.Parsing.Guards
import PythonSyntax.Proofs.Parsing.Spans
import PythonSyntax.Proofs.Parsing.SpanWays
import PythonSyntax.Proofs.Parsing.Shapes
import PythonSyntax.Proofs.Parsing.Stepwise
import PythonSyntax.Proofs.Parsing.Sessions
import PythonSyntax.Proofs.Parsing.Composition
import PythonSyntax.Proofs.Lexical.LineEndings
import PythonSyntax.Proofs.Parsing.Locality
import PythonSyntax.Proofs.Parsing.KindsDecide
import PythonSyntax.Proofs.Parsing.Untyped
import PythonSyntax.Proofs.Lexical.LayoutTokens
import PythonSyntax.Proofs.Lexical.NeutralEdits
import PythonSyntax.Proofs.Lexical.Faults
import PythonSyntax.Proofs.Parsing.ErrorPlaces
import PythonSyntax.Proofs.Ranges.Sessions
import PythonSyntax.Proofs.Lexical.Numerals
import PythonSyntax.Proofs.Lexical.Quotations
import PythonSyntax.Proofs.Lexical.Words
import PythonSyntax.Proofs.Lexical.LongestMatch
import PythonSyntax.Proofs.Lexical.Offside
import PythonSyntax.Proofs.Lexical.LocationOrder
import PythonSyntax.Proofs.Parsing.Parameters
import PythonSyntax.Proofs.Parsing.Slices
import PythonSyntax.Proofs.Parsing.Commas
import PythonSyntax.Proofs.Parsing.ExpressionLines
import PythonSyntax.Proofs.Lexical.MovesLeft
import PythonSyntax.Proofs.Parsing.Descent
import PythonSyntax.Proofs.Lexical.TokenLaws
import PythonSyntax.Proofs.Lexical.TokenLines
