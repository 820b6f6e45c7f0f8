import FragmentBounds.Fragment.Header
import FragmentBounds.Fragment.Label
import FragmentBounds.Fragment.Expression
import FragmentBounds.Fragment.Arguments

/-! The template constructs that embed a fragment of the host language. -/
namespace FragmentBounds

inductive Construct where
  | ifHeader
  | forHeader
  | switchHeader
  /-- `case` and `default` alike. -/
  | label
  | expression
  | arguments
  deriving DecidableEq, Repr

namespace Construct

def all : List Construct :=
  [.ifHeader, .forHeader, .switchHeader, .label, .expression, .arguments]

def name : Construct → String
  | .ifHeader => "if"
  | .forHeader => "for"
  | .switchHeader => "switch"
  | .label => "case"
  | .expression => "expression"
  | .arguments => "slice arguments"

def ofKeyword? : Keyword → Option Construct
  | .kwIf => some .ifHeader
  | .kwFor => some .forHeader
  | .kwSwitch => some .switchHeader
  | .kwCase | .kwDefault => some .label
  | _ => none

/-- The construct of a source by its first significant token. What no keyword
introduces is an expression, malformed text included. -/
def detect (source : String) : Construct :=
  let leading : Except Fault Token := do (← TokenStream.ofSource source).nextSignificant.1
  ((leading.toOption.bind Token.keyword?).bind ofKeyword?).getD .expression

/-- The span of the fragment at the start of a source. -/
def extract (construct : Construct) (source : String) : Except Fault Span :=
  match construct with
  | .ifHeader => (Header.recognizer .kwIf).recognize source
  | .forHeader => (Header.recognizer .kwFor).recognize source
  | .switchHeader => (Header.recognizer .kwSwitch).recognize source
  | .label => Label.recognizer.recognize source
  | .expression => Expression.recognizer.recognize source
  | .arguments => Arguments.recognizer.recognize source

end Construct

def arguments (source : String) : Except Fault String :=
  (·.slice source) <$> Construct.arguments.extract source

end FragmentBounds
