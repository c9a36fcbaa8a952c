import DefToC.Main
import DefToC.Proofs.Syntax.Induction
import DefToC.Proofs.Typed.Lowers
import DefToC.Proofs.Typed.Scoping
import DefToC.Proofs.Number.ReadBack
import DefToC.Proofs.Syntax.ExprDerivations
import DefToC.Proofs.Syntax.ExprRoundTrip
import DefToC.Proofs.Syntax.ProgramReadings
import DefToC.Proofs.Syntax.RoundTrip
import DefToC.Proofs.Meaning.COutput
import DefToC.Proofs.Meaning.Evaluation
import DefToC.Proofs.Meaning.Grammar
import DefToC.Proofs.Meaning.Preservation
import DefToC.Proofs.Syntax.ParsedShape
import DefToC.Proofs.Typed.Erasure
import DefToC.Proofs.Typed.Typing
import DefToC.Proofs.Token.Lexemes
import DefToC.Proofs.Token.Traces
import DefToC.Proofs.Token.Blocks
import DefToC.Proofs.Token.Coverage
import DefToC.Proofs.Token.Regex
import DefToC.Proofs.Typed.Outlines
import DefToC.Proofs.Number.Numerals
import DefToC.Proofs.Meaning.CWords
import DefToC.Proofs.Syntax.Sources
import DefToC.Proofs.Typed.ExprOutlines
import DefToC.Proofs.Typed.Readability
import DefToC.Proofs.Token.LogicalLines
import DefToC.Proofs.Token.Indentation
import DefToC.Proofs.Typed.Permanence
import DefToC.Proofs.Function.OwnCalls
import DefToC.Proofs.Syntax.SyntaxErrors
import DefToC.Proofs.Typed.Failures
import DefToC.Proofs.Source.ErrorOrigins
import DefToC.Proofs.Function.Emission
import DefToC.Proofs.Function.ArrayLiterals
import DefToC.Proofs.Syntax.Spans
import DefToC.Proofs.Syntax.Progress
import DefToC.Proofs.Typed.Spans
import DefToC.Proofs.Source.Spans
import DefToC.Proofs.Token.Simulation
import DefToC.Proofs.Token.LongestMatch
import DefToC.Proofs.Token.LineEndings
import DefToC.Proofs.Token.BlankLines
import DefToC.Proofs.Syntax.Yield
import DefToC.Proofs.Function.ReturnTypes
import DefToC.Proofs.Function.Externs
import DefToC.Proofs.Syntax.SpanTrees
import DefToC.Proofs.Typed.ErrorPlaces
import DefToC.Proofs.Source.Positions
import DefToC.Proofs.Syntax.Constants
import DefToC.Proofs.Source.Carets
import DefToC.Proofs.Token.Spacing
import DefToC.Proofs.Syntax.TypeLists
import DefToC.Proofs.Typed.Brackets
import DefToC.Proofs.Source.Lines
import DefToC.Proofs.Source.OutputLayout
import DefToC.Proofs.Typed.IntegerTexts
import DefToC.Proofs.Source.IntegerLiterals
