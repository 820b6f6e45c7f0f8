/-! The three families of brackets. -/
namespace FragmentBounds

inductive Bracket where
  | paren
  | square
  | brace
  deriving DecidableEq, Repr

namespace Bracket

def opener : Bracket → String
  | .paren => "("
  | .square => "["
  | .brace => "\x7b"

def closer : Bracket → String
  | .paren => ")"
  | .square => "]"
  | .brace => "\x7d"

def all : List Bracket := [.paren, .square, .brace]

end Bracket

end FragmentBounds
