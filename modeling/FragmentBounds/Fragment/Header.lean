import FragmentBounds.Recognizer

/-! Headers of `if`, `for` and `switch` statements. A header runs from after
the keyword to the brace that opens the block. Braces of the header itself are
passed over: the body of a function literal, and the literal of an explicit
type such as `[]T` or `map[K]V`. A composite literal of a bare type name is
not recognised, since the host language wants it in parentheses here. -/
namespace FragmentBounds.Header

/-- What the next brace at top level opens, if it does not open the block. -/
inductive Body where
  /-- The body of a function, once its signature is read. -/
  | function
  /-- The literal of an array, slice, map or channel type. -/
  | literal
  /-- The fields or methods of a type, which may stand in a signature. -/
  | members (inSignature : Bool)
  deriving DecidableEq, Repr

def Body.next? : Body → Option Body
  | .members true => some .function
  | .members false => some .literal
  | .function | .literal => none

/-- How a token at top level, other than an opening brace, changes what the
next brace opens. A square bracket after an operand indexes it; elsewhere it
starts a type. -/
def observe (body : Option Body) (afterOperand : Bool) (token : Token) : Option Body :=
  match token.tag with
  | .identifier =>
    match token.keyword? with
    | none => body
    | some .kwFunc => some .function
    | some keyword =>
      if keyword.hasTypeBody then some (.members (body == some .function))
      else if keyword.startsTypeLiteral then
        some (if body = some .function then .function else .literal)
      else none
  | .opening .square => if body.isNone && !afterOperand then some .literal else body
  | .dot | .operator .star | .operator .arrow => body
  | .opening .paren => if body = some .function then body else none
  | _ => none

/-- Tokens after which a square bracket indexes. -/
def endsOperand (token : Token) : Bool :=
  token.tag.isLiteral || token.tag.closes?.isSome || token.isName

structure Clause where
  nesting : Nesting
  body : Option Body
  fragment : Option Span
  afterOperand : Bool
  deriving DecidableEq, Repr

inductive State where
  /-- The keyword must come first. -/
  | keyword
  | clause (clause : Clause)
  deriving DecidableEq, Repr

namespace Clause

def start : Clause := ⟨.empty, none, none, false⟩

def consume (clause : Clause) (token : Token) : Except Fault (Step State Span) := do
  let nesting ← clause.nesting.track token
  return .more <| .clause
    { clause with
      nesting := nesting
      fragment := extendFragment clause.fragment token
      afterOperand := endsOperand token }

/-- The span of a clause that ends before a brace. Only a condition may not be
empty. -/
def finish (clause : Clause) (keyword : Keyword) (brace : Token) : Except Fault (Step State Span) :=
  match clause.fragment with
  | some span => .ok (.done span)
  | none =>
    if keyword = .kwIf then .error (brace.unexpected .condition)
    else .ok (.done (.point brace.span.start))

def step (clause : Clause) (keyword : Keyword) (token : Token) : Except Fault (Step State Span) :=
  if clause.nesting.isTopLevel then
    if token.tag = .opening .brace then
      match clause.body with
      | none => clause.finish keyword token
      | some body => { clause with body := body.next? }.consume token
    else { clause with body := observe clause.body clause.afterOperand token }.consume token
  else clause.consume token

end Clause

def step (keyword : Keyword) (state : State) (_ : Gap) (token : Token) :
    Except Fault (Step State Span) :=
  match state with
  | .keyword =>
    if token.keyword? = some keyword then .ok (.more (.clause .start))
    else .error (token.unexpected (.keyword keyword))
  | .clause clause => clause.step keyword token

def atEnd (keyword : Keyword) (state : State) (size : Nat) : Except Fault Span :=
  match state with
  | .keyword => .error ((Token.endOfInput size).unexpected (.keyword keyword))
  | .clause clause => do
    clause.nesting.ensureClosed
    throw ((Token.endOfInput size).unexpected .openBrace)

def recognizer (keyword : Keyword) : Recognizer State Span :=
  ⟨.keyword, step keyword, atEnd keyword⟩

end FragmentBounds.Header
