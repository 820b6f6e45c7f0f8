import FragmentBounds.Recognizer

/-! Bare expressions. Operands and operators are followed at top level up to
the first token that cannot go on: a brace that closes the interpolation or
opens a block, a line break after a complete operand, or anything else out of
place. A spread mark is taken in and ends the expression. -/
namespace FragmentBounds.Expression

/-- What may come next at top level. While brackets are open, the phase is the
one that holds once they are closed. -/
inductive Phase where
  /-- An operand: at the start, or after an operator. -/
  | operand
  /-- A selector, a call, an index, an operator or a spread mark. -/
  | afterOperand
  /-- After a point: a field name or a type assertion. -/
  | selector
  /-- The rest of a type literal. The signature of a function takes lists of
  parameters; other types read a parenthesis as a conversion. -/
  | typeLiteral (inSignature : Bool)
  /-- The list of fields or methods. -/
  | members (inSignature : Bool)
  deriving DecidableEq, Repr

inductive Outcome where
  /-- It belongs to the expression, which goes on in a phase. -/
  | advance (next : Phase)
  /-- It is the last token of the expression. -/
  | finish
  /-- The expression ended before it. -/
  | stop
  deriving DecidableEq, Repr

/-- An outcome, or the phase in which to look at the same token again. -/
inductive Reaction where
  | settled (outcome : Outcome)
  | again (phase : Phase)
  deriving DecidableEq, Repr

/-- Tokens that a brace must touch to open a composite literal. -/
def takesLiteral : Tag → Bool
  | .identifier | .closing .square | .closing .brace => true
  | _ => false

namespace Phase

def operandReaction (token : Token) : Except Fault Outcome :=
  match token.tag with
  | .identifier =>
    match token.keyword? with
    | none => .ok (.advance .afterOperand)
    | some keyword =>
      if keyword.hasTypeBody then .ok (.advance (.members false))
      else if keyword.startsTypeLiteral then
        .ok (.advance (.typeLiteral (keyword == .kwFunc)))
      else .error (token.unexpected .expression)
  | .literal _ => .ok (.advance .afterOperand)
  | .opening .paren => .ok (.advance .afterOperand)
  | .opening .square => .ok (.advance (.typeLiteral false))
  | tag =>
    if tag.isUnaryOperator then .ok (.advance .operand)
    else .error (token.unexpected .expression)

/-- After an operand a line break stops the expression whatever comes. A
closer that nothing opened is a fault; a closing brace ends the interpolation. -/
def afterOperandReaction (previous : Tag) (gap : Gap) (token : Token) : Except Fault Outcome :=
  if gap.broken then .ok .stop
  else
    match token.tag with
    | .dot => .ok (.advance .selector)
    | .opening .paren | .opening .square => .ok (.advance .afterOperand)
    | .opening .brace =>
      .ok (if !gap.spaced && takesLiteral previous then .advance .afterOperand else .stop)
    | .ellipsis => .ok .finish
    | .closing .brace => .ok .stop
    | .closing bracket => .error (.bracket (.unmatched bracket) token.span.start)
    | tag => .ok (if tag.isBinaryOperator then .advance .operand else .stop)

def selectorReaction (token : Token) : Except Fault Outcome :=
  if token.isName ∨ token.tag = .opening .paren then .ok (.advance .afterOperand)
  else .error (token.unexpected .selector)

/-- A token that does not belong to the type comes after the operand that the
type is. -/
def typeLiteralReaction (inSignature : Bool) (token : Token) : Reaction :=
  match token.tag with
  | .identifier =>
    match token.keyword? with
    | none => .settled (.advance (.typeLiteral inSignature))
    | some keyword =>
      if keyword.hasTypeBody then .settled (.advance (.members inSignature))
      else if keyword.startsTypeLiteral then .settled (.advance (.typeLiteral inSignature))
      else .again .afterOperand
  | .dot | .operator .star | .operator .arrow | .opening .square =>
    .settled (.advance (.typeLiteral inSignature))
  | .opening .paren =>
    .settled (.advance (if inSignature then .typeLiteral inSignature else .afterOperand))
  | .opening .brace => .settled (.advance .afterOperand)
  | _ => .again .afterOperand

def membersReaction (inSignature : Bool) (token : Token) : Except Fault Outcome :=
  if token.tag = .opening .brace then .ok (.advance (.typeLiteral inSignature))
  else .error (token.unexpected .openBrace)

def react (phase : Phase) (previous : Tag) (gap : Gap) (token : Token) : Except Fault Reaction :=
  match phase with
  | .operand => (operandReaction token).map .settled
  | .afterOperand => (afterOperandReaction previous gap token).map .settled
  | .selector => (selectorReaction token).map .settled
  | .typeLiteral inSignature => .ok (typeLiteralReaction inSignature token)
  | .members inSignature => (membersReaction inSignature token).map .settled

/-- How often a token may still be looked at again. -/
def rank : Phase → Nat
  | .typeLiteral _ => 1
  | _ => 0

theorem typeLiteralReaction_eq_again {inSignature : Bool} {next : Phase} {token : Token}
    (again : typeLiteralReaction inSignature token = .again next) : next = .afterOperand := by
  unfold typeLiteralReaction at again
  cases tag : token.tag with
  | identifier =>
    cases spelled : token.keyword? with
    | none => simp [tag, spelled] at again
    | some keyword =>
      simp only [tag, spelled] at again
      split at again
      · cases again
      · split at again <;> cases again
        rfl
  | opening bracket => cases bracket <;> simp [tag] at again
  | operator kind =>
    cases kind with
    | star | arrow => simp [tag] at again
    | _ =>
      rw [tag] at again
      cases again
      rfl
  | dot => simp [tag] at again
  | _ =>
    rw [tag] at again
    cases again
    rfl

private theorem map_settled_ne_again {found : Except Fault Outcome} {next : Phase} :
    found.map Reaction.settled ≠ .ok (.again next) := by
  cases found with
  | error fault => nofun
  | ok outcome => nofun

theorem react_eq_again {phase next : Phase} {previous : Tag} {gap : Gap} {token : Token}
    (again : phase.react previous gap token = .ok (.again next)) :
    next = .afterOperand ∧ ∃ inSignature, phase = .typeLiteral inSignature := by
  cases phase with
  | typeLiteral inSignature =>
    exact ⟨typeLiteralReaction_eq_again (Except.ok.inj again), inSignature, rfl⟩
  | operand | afterOperand | selector | members inSignature =>
    exact absurd again map_settled_ne_again

def settle (phase : Phase) (previous : Tag) (gap : Gap) (token : Token) : Except Fault Outcome :=
  match _ : phase.react previous gap token with
  | .error fault => .error fault
  | .ok (.settled outcome) => .ok outcome
  | .ok (.again next) => next.settle previous gap token
termination_by phase.rank
decreasing_by
  obtain ⟨rfl, inSignature, rfl⟩ := react_eq_again ‹_›
  exact Nat.zero_lt_one

end Phase

structure State where
  phase : Phase
  nesting : Nesting
  fragment : Option Span
  previous : Tag
  deriving DecidableEq, Repr

namespace State

def start : State := ⟨.operand, .empty, none, .endOfInput⟩

def span (state : State) (offset : Nat) : Span := state.fragment.getD (.point offset)

def consume (state : State) (token : Token) : Except Fault State := do
  let nesting ← state.nesting.track token
  return { state with
    nesting := nesting
    fragment := extendFragment state.fragment token
    previous := token.tag }

end State

def step (state : State) (gap : Gap) (token : Token) : Except Fault (Step State Span) :=
  if state.nesting.isTopLevel then do
    match ← state.phase.settle state.previous gap token with
    | .advance next => .more <$> { state with phase := next }.consume token
    | .finish => return .done ((← state.consume token).span token.span.start)
    | .stop => return .done (state.span token.span.start)
  else .more <$> state.consume token

/-- At the end an open bracket is a fault, and so is an operand still missing. -/
def atEnd (state : State) (size : Nat) : Except Fault Span := do
  state.nesting.ensureClosed
  let _ ← state.phase.settle state.previous .closed (.endOfInput size)
  return state.span size

def recognizer : Recognizer State Span := ⟨.start, step, atEnd⟩

end FragmentBounds.Expression
