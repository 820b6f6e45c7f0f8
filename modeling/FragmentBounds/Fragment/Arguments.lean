import FragmentBounds.Recognizer

/-! Argument lists: everything up to the first closing brace at top level, or
to the end of the source. The arguments need only be balanced. -/
namespace FragmentBounds.Arguments

structure State where
  nesting : Nesting
  fragment : Option Span
  deriving DecidableEq, Repr

/-- The arguments read so far. Where there are none, they are an empty span
before the token that ends them. -/
def State.span (state : State) (terminator : Nat) : Span := state.fragment.getD (.point terminator)

def step (state : State) (_ : Gap) (token : Token) : Except Fault (Step State Span) :=
  if state.nesting.isTopLevel ∧ token.tag = .closing .brace then
    .ok (.done (state.span token.span.start))
  else do
    let nesting ← state.nesting.track token
    return .more ⟨nesting, extendFragment state.fragment token⟩

def atEnd (state : State) (size : Nat) : Except Fault Span := do
  state.nesting.ensureClosed
  return state.span size

def recognizer : Recognizer State Span := ⟨⟨.empty, none⟩, step, atEnd⟩

end FragmentBounds.Arguments
