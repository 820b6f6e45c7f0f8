import FragmentBounds.Recognizer

/-! Labels of a switch, from `case` or `default` through the colon that ends
them. Colons inside brackets do not end a label. Assignments at top level are
refused, for they belong to another statement. -/
namespace FragmentBounds.Label

structure Clause where
  keyword : Span
  nesting : Nesting
  empty : Bool
  deriving DecidableEq, Repr

inductive State where
  /-- `case` or `default` must come first. -/
  | keyword
  /-- After `default` only the colon may come. -/
  | colon (keyword : Span)
  | clause (clause : Clause)
  deriving DecidableEq, Repr

def Clause.step (clause : Clause) (token : Token) : Except Fault (Step State Span) :=
  if clause.nesting.isTopLevel ∧ token.tag = .colon then
    if clause.empty then .error (token.unexpected .expression)
    else .ok (.done (clause.keyword.merge token.span))
  else if clause.nesting.isTopLevel ∧
      (token.tag = .operator .define ∨ token.tag = .operator .assign) then
    .error (token.unexpected .colon)
  else do
    let nesting ← clause.nesting.track token
    return .more (.clause { clause with nesting := nesting, empty := false })

def step (state : State) (_ : Gap) (token : Token) : Except Fault (Step State Span) :=
  match state with
  | .keyword =>
    match token.keyword? with
    | some .kwDefault => .ok (.more (.colon token.span))
    | some .kwCase => .ok (.more (.clause ⟨token.span, .empty, true⟩))
    | _ => .error (token.unexpected .caseLabel)
  | .colon keyword =>
    if token.tag = .colon then .ok (.done (keyword.merge token.span))
    else .error (token.unexpected .colon)
  | .clause clause => clause.step token

def atEnd (state : State) (size : Nat) : Except Fault Span :=
  match state with
  | .keyword => .error ((Token.endOfInput size).unexpected .caseLabel)
  | .colon _ => .error ((Token.endOfInput size).unexpected .colon)
  | .clause clause => do
    clause.nesting.ensureClosed
    throw ((Token.endOfInput size).unexpected .colon)

def recognizer : Recognizer State Span := ⟨.keyword, step, atEnd⟩

end FragmentBounds.Label
