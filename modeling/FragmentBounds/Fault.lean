import FragmentBounds.Lexeme.Tag
import FragmentBounds.Keyword

/-! Why a fragment could not be recognised, and the words that say so. A fault
lies at the byte offset of the token that gave it away. -/
namespace FragmentBounds

inductive BracketFault where
  /-- A closer with nothing open. -/
  | unmatched (found : Bracket)
  /-- A closer of another family than the innermost opener. -/
  | mismatched (opener : Bracket) (openedAt : Nat) (found : Bracket)
  /-- An opener that is still open where the fragment ends. -/
  | unclosed (opener : Bracket)
  deriving DecidableEq, Repr

inductive Expectation where
  | keyword (word : Keyword)
  | caseLabel
  | openBrace
  | colon
  | condition
  | expression
  | selector
  deriving DecidableEq, Repr

inductive Fault where
  | malformed (kind : Malformation) (offset : Nat)
  | bracket (kind : BracketFault) (offset : Nat)
  | expected (what : Expectation) (found : Tag) (offset : Nat)
  | sourceTooLarge (size : Nat)
  deriving DecidableEq, Repr

def BracketFault.message : BracketFault → String
  | .unmatched found => s!"unexpected `{found.closer}` with nothing open"
  | .mismatched opener openedAt found =>
    s!"`{found.closer}` does not close `{opener.opener}` opened at offset {openedAt}"
  | .unclosed opener => s!"`{opener.opener}` is never closed"

def Expectation.message : Expectation → String
  | .keyword word => s!"keyword `{word.spelling}`"
  | .caseLabel => "`case` or `default`"
  | .openBrace => "`\x7b`"
  | .colon => "`:`"
  | .condition => "condition"
  | .expression => "expression"
  | .selector => "identifier or `(` after `.`"

namespace Fault

def message : Fault → String
  | .malformed kind offset => s!"{kind.message} at offset {offset}"
  | .bracket kind offset => s!"{kind.message} (at offset {offset})"
  | .expected what found offset =>
    s!"expected {what.message}, found {found.name} at offset {offset}"
  | .sourceTooLarge size =>
    s!"source is {size} bytes, larger than the supported 4294967295 bytes"

/-- A source that is too large has no offsets; its fault is put at the start. -/
def offset : Fault → Nat
  | .malformed _ offset | .bracket _ offset | .expected _ _ offset => offset
  | .sourceTooLarge _ => 0

end Fault

end FragmentBounds
