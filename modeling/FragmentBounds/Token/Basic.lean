import FragmentBounds.Fault
import FragmentBounds.Lexeme.Sequence
import FragmentBounds.Span

/-! Lexemes at their place in a source. -/
namespace FragmentBounds

structure Token where
  tag : Tag
  span : Span
  text : String
  deriving DecidableEq, Repr

namespace Token

/-- A token with the text that its span covers, if the span fits. -/
def ofSpan (source : String) (tag : Tag) (span : Span) : Token := ⟨tag, span, span.slice source⟩

def ofLexeme (start : Nat) (lexeme : Lexeme) : Token :=
  ⟨lexeme.tag, ⟨start, start + lexeme.byteSize⟩, String.ofList lexeme.text⟩

def endOfInput (offset : Nat) : Token := ⟨.endOfInput, .point offset, ""⟩

def keyword? (token : Token) : Option Keyword :=
  if token.tag = .identifier then Keyword.ofText? token.text else none

def isName (token : Token) : Bool := decide (token.tag = .identifier) && token.keyword?.isNone

def isTrivia (token : Token) : Bool := token.tag.isTrivia

theorem isTrivia_of_tag {token : Token} {tag : Tag} (same : token.tag = tag)
    (significant : tag.isTrivia = false) : token.isTrivia = false := by
  rw [isTrivia, same, significant]

/-- Line breaks, and block comments that hold one. -/
def breaksLine (token : Token) : Bool :=
  match token.tag with
  | .trivia .newline => true
  | .trivia .blockComment => token.text.toList.contains '\n'
  | _ => false

def check (token : Token) : Except Fault Token :=
  match token.tag with
  | .malformed kind => .error (.malformed kind token.span.start)
  | _ => .ok token

theorem check_eq_error {token : Token} {fault : Fault} :
    token.check = .error fault ↔
      ∃ kind, token.tag = .malformed kind ∧ fault = .malformed kind token.span.start := by
  obtain ⟨tag, span, text⟩ := token
  cases tag <;> simp [check, eq_comm]

theorem check_eq_ok {token other : Token} :
    token.check = .ok other ↔ token.tag.isMalformed = false ∧ other = token := by
  obtain ⟨tag, span, text⟩ := token
  cases tag <;> simp [check, Tag.isMalformed, eq_comm]

theorem tag_of_keyword? {token : Token} {keyword : Keyword}
    (spelled : token.keyword? = some keyword) : token.tag = .identifier := by
  unfold keyword? at spelled
  split at spelled
  · assumption
  · cases spelled

theorem isName_iff {token : Token} :
    token.isName ↔ token.tag = .identifier ∧ token.keyword? = none := by
  simp [isName]

def unexpected (token : Token) (what : Expectation) : Fault :=
  .expected what token.tag token.span.start

end Token

def tokensFrom (start : Nat) : List Lexeme → List Token
  | [] => []
  | lexeme :: lexemes => .ofLexeme start lexeme :: tokensFrom (start + lexeme.byteSize) lexemes

/-- The tokens of a source, malformed ones included. -/
def tokens (source : String) : List Token := tokensFrom 0 (lexemes source.toList)

theorem tokensFrom_append (start : Nat) (front back : List Lexeme) :
    tokensFrom start (front ++ back) =
      tokensFrom start front ++ tokensFrom (start + Text.byteSize (front.flatMap Lexeme.text)) back := by
  induction front generalizing start with
  | nil => simp [tokensFrom]
  | cons lexeme front ih => simp [tokensFrom, ih, Lexeme.byteSize, Nat.add_assoc]

theorem map_tag_tokensFrom (start : Nat) (lexemes : List Lexeme) :
    (tokensFrom start lexemes).map Token.tag = lexemes.map Lexeme.tag := by
  induction lexemes generalizing start with
  | nil => rfl
  | cons lexeme lexemes ih => simp [tokensFrom, ih, Token.ofLexeme]

end FragmentBounds
