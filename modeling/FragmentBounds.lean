import FragmentBounds.Lexeme.Scanner
import FragmentBounds.Cursor
import FragmentBounds.Construct
import FragmentBounds.Fragment.Spread
import FragmentBounds.Fragment.TypeSwitch
import FragmentBounds.Proofs.Lexeme.Spelling
import FragmentBounds.Proofs.Lexeme.Splitting
import FragmentBounds.Proofs.Lexeme.Pieces
import FragmentBounds.Proofs.Lexeme.Resuming
import FragmentBounds.Proofs.Fragment.Respects
import FragmentBounds.Proofs.Fragment.Steps
import FragmentBounds.Proofs.Fragment.ExpressionEmbedding
import FragmentBounds.Proofs.Fragment.HeaderEmbedding
import FragmentBounds.Proofs.Fragment.Opaque
import FragmentBounds.Proofs.Recognizer.Tracking
import FragmentBounds.Proofs.Recognizer.TokenLoop
import FragmentBounds.Proofs.Fragment.Extents
import FragmentBounds.Proofs.Checked.Arithmetic
import FragmentBounds.Proofs.Checked.Scanner
import FragmentBounds.Proofs.Checked.Bytes
import FragmentBounds.Proofs.Checked.Facing
import FragmentBounds.Proofs.Checked.Symbols
import FragmentBounds.Proofs.Checked.Words
import FragmentBounds.Proofs.Checked.Numerals
import FragmentBounds.Proofs.Checked.Quoted
import FragmentBounds.Proofs.Checked.Agreement
import FragmentBounds.Proofs.Checked.Depths
import FragmentBounds.Proofs.Checked.Extraction
import FragmentBounds.Proofs.Checked.Resuming
import FragmentBounds.Proofs.Token.Partition
import FragmentBounds.Proofs.Fragment.Soundness
import FragmentBounds.Proofs.Recognizer.Spacing
import FragmentBounds.Proofs.Token.Places
import FragmentBounds.Proofs.Fragment.Spacing
import FragmentBounds.Proofs.Fragment.Clean
import FragmentBounds.Proofs.Fragment.ArgumentsEmbedding
import FragmentBounds.Proofs.Fragment.LineBreak
import FragmentBounds.Proofs.Fragment.LiteralTracking
import FragmentBounds.Proofs.Fragment.HeaderOfExpression
import FragmentBounds.Proofs.Bracket.Closable
import FragmentBounds.Proofs.Fragment.FirstFault
import FragmentBounds.Proofs.Fragment.Dangling
import FragmentBounds.Proofs.Fragment.Detection
import FragmentBounds.Proofs.Grammar.Basic
import FragmentBounds.Proofs.Grammar.Header
import FragmentBounds.Proofs.Grammar.Expression
import FragmentBounds.Proofs.Grammar.Label
import FragmentBounds.Proofs.Fragment.LabelEmbedding
import FragmentBounds.Proofs.Grammar.Arguments
import FragmentBounds.Proofs.Lexeme.Points
import FragmentBounds.Proofs.Fragment.SpreadMark
import FragmentBounds.Proofs.Bracket.Grammar
import FragmentBounds.Proofs.Grammar.TypeGuard
import FragmentBounds.Proofs.Lexeme.Delimited
import FragmentBounds.Proofs.Lexeme.LongestNumeral
import FragmentBounds.Proofs.Lexeme.LongestSpelling
import FragmentBounds.Proofs.Lexeme.Names
import FragmentBounds.Proofs.Checked.Brackets
import FragmentBounds.Proofs.Checked.Positions
import FragmentBounds.Proofs.Fragment.Loops
