import FragmentBounds.Bracket.Basic

/-! What a lexeme is. Keywords are identifiers here; a malformed lexeme has a
tag of its own, so that every text is a sequence of lexemes. -/
namespace FragmentBounds

inductive Literal where
  | int
  | float
  | imaginary
  | string
  | rawString
  | rune
  deriving DecidableEq, Repr

inductive Operator where
  | plus
  | minus
  | star
  | slash
  | percent
  | ampersand
  | pipe
  | caret
  | shiftLeft
  | shiftRight
  | andNot
  | logicalAnd
  | logicalOr
  | arrow
  | increment
  | decrement
  | equal
  | notEqual
  | less
  | lessEqual
  | greater
  | greaterEqual
  | assign
  | define
  | compoundAssign
  | bang
  | tilde
  deriving DecidableEq, Repr

inductive Trivia where
  /-- Spaces and tabs, or one carriage return that no line feed follows. -/
  | whitespace
  | newline
  | lineComment
  | blockComment
  deriving DecidableEq, Repr

inductive Malformation where
  | invalidCharacter
  | unterminatedString
  | unterminatedRawString
  | unterminatedRune
  /-- A closed rune literal that does not hold exactly one character. -/
  | invalidRune
  | unterminatedComment
  deriving DecidableEq, Repr

inductive Tag where
  | identifier
  | literal (kind : Literal)
  | operator (kind : Operator)
  | opening (bracket : Bracket)
  | closing (bracket : Bracket)
  | comma
  | semicolon
  | colon
  | dot
  | ellipsis
  | trivia (kind : Trivia)
  | malformed (kind : Malformation)
  | endOfInput
  deriving DecidableEq, Repr

namespace Literal

def code : Literal → Nat
  | .int => 1
  | .float => 2
  | .imaginary => 3
  | .string => 4
  | .rawString => 5
  | .rune => 6

def name : Literal → String
  | .int => "integer literal"
  | .float => "float literal"
  | .imaginary => "imaginary literal"
  | .string => "string literal"
  | .rawString => "raw string literal"
  | .rune => "rune literal"

end Literal

namespace Operator

def all : List Operator :=
  [.plus, .minus, .star, .slash, .percent, .ampersand, .pipe, .caret, .shiftLeft, .shiftRight,
    .andNot, .logicalAnd, .logicalOr, .arrow, .increment, .decrement, .equal, .notEqual, .less,
    .lessEqual, .greater, .greaterEqual, .assign, .define, .compoundAssign, .bang, .tilde]

def code : Operator → Nat
  | .plus => 32
  | .minus => 33
  | .star => 34
  | .slash => 35
  | .percent => 36
  | .ampersand => 37
  | .pipe => 38
  | .caret => 39
  | .shiftLeft => 40
  | .shiftRight => 41
  | .andNot => 42
  | .logicalAnd => 43
  | .logicalOr => 44
  | .arrow => 45
  | .increment => 46
  | .decrement => 47
  | .equal => 48
  | .notEqual => 49
  | .less => 50
  | .lessEqual => 51
  | .greater => 52
  | .greaterEqual => 53
  | .assign => 54
  | .define => 55
  | .compoundAssign => 56
  | .bang => 57
  | .tilde => 58

/-- The one spelling of an operator; the compound assignments share a tag and
have none. -/
def spelling? : Operator → Option String
  | .plus => some "+"
  | .minus => some "-"
  | .star => some "*"
  | .slash => some "/"
  | .percent => some "%"
  | .ampersand => some "&"
  | .pipe => some "|"
  | .caret => some "^"
  | .shiftLeft => some "<<"
  | .shiftRight => some ">>"
  | .andNot => some "&^"
  | .logicalAnd => some "&&"
  | .logicalOr => some "||"
  | .arrow => some "<-"
  | .increment => some "++"
  | .decrement => some "--"
  | .equal => some "=="
  | .notEqual => some "!="
  | .less => some "<"
  | .lessEqual => some "<="
  | .greater => some ">"
  | .greaterEqual => some ">="
  | .assign => some "="
  | .define => some ":="
  | .compoundAssign => none
  | .bang => some "!"
  | .tilde => some "~"

def compoundSpellings : List String :=
  ["+=", "-=", "*=", "/=", "%=", "&=", "|=", "^=", "<<=", ">>=", "&^="]

def isBinary : Operator → Bool
  | .plus | .minus | .star | .slash | .percent | .ampersand | .pipe | .caret | .shiftLeft
  | .shiftRight | .andNot | .logicalAnd | .logicalOr | .equal | .notEqual | .less | .lessEqual
  | .greater | .greaterEqual => true
  | _ => false

def isUnary : Operator → Bool
  | .plus | .minus | .bang | .caret | .star | .ampersand | .arrow | .tilde => true
  | _ => false

end Operator

namespace Trivia

def code : Trivia → Nat
  | .whitespace => 112
  | .newline => 113
  | .lineComment => 114
  | .blockComment => 115

def name : Trivia → String
  | .whitespace => "whitespace"
  | .newline => "newline"
  | .lineComment => "line comment"
  | .blockComment => "block comment"

end Trivia

namespace Malformation

def code : Malformation → Nat
  | .invalidCharacter => 240
  | .unterminatedString => 241
  | .unterminatedRawString => 242
  | .unterminatedRune => 243
  | .invalidRune => 244
  | .unterminatedComment => 245

def name : Malformation → String
  | .invalidCharacter => "invalid character"
  | .unterminatedString => "unterminated string literal"
  | .unterminatedRawString => "unterminated raw string literal"
  | .unterminatedRune => "unterminated rune literal"
  | .invalidRune => "invalid rune literal"
  | .unterminatedComment => "unterminated block comment"

def message : Malformation → String
  | .invalidRune => "rune literal must hold exactly one character"
  | malformation => malformation.name

end Malformation

namespace Tag

/-- The number of a tag. Related tags have neighbouring numbers. -/
def code : Tag → Nat
  | .identifier => 0
  | .literal kind => kind.code
  | .operator kind => kind.code
  | .opening .paren => 80
  | .closing .paren => 81
  | .opening .square => 82
  | .closing .square => 83
  | .opening .brace => 84
  | .closing .brace => 85
  | .comma => 86
  | .semicolon => 87
  | .colon => 88
  | .dot => 89
  | .ellipsis => 90
  | .trivia kind => kind.code
  | .malformed kind => kind.code
  | .endOfInput => 255

/-- The text of every lexeme with this tag, if there is just one. -/
def spelling? : Tag → Option String
  | .operator kind => kind.spelling?
  | .opening bracket => some bracket.opener
  | .closing bracket => some bracket.closer
  | .comma => some ","
  | .semicolon => some ";"
  | .colon => some ":"
  | .dot => some "."
  | .ellipsis => some "..."
  | _ => none

def name : Tag → String
  | .identifier => "identifier"
  | .literal kind => kind.name
  | .operator kind => kind.spelling?.getD "assignment operator"
  | .opening bracket => bracket.opener
  | .closing bracket => bracket.closer
  | .comma => ","
  | .semicolon => ";"
  | .colon => ":"
  | .dot => "."
  | .ellipsis => "..."
  | .trivia kind => kind.name
  | .malformed kind => kind.name
  | .endOfInput => "end of input"

def isLiteral : Tag → Bool
  | .literal _ => true
  | _ => false

def isTrivia : Tag → Bool
  | .trivia _ => true
  | _ => false

def isMalformed : Tag → Bool
  | .malformed _ => true
  | _ => false

def isBinaryOperator : Tag → Bool
  | .operator kind => kind.isBinary
  | _ => false

def isUnaryOperator : Tag → Bool
  | .operator kind => kind.isUnary
  | _ => false

def opens? : Tag → Option Bracket
  | .opening bracket => some bracket
  | _ => none

def closes? : Tag → Option Bracket
  | .closing bracket => some bracket
  | _ => none

def isBracket (tag : Tag) : Bool := tag.opens?.isSome || tag.closes?.isSome

def malformation? : Tag → Option Malformation
  | .malformed kind => some kind
  | _ => none

/-- The tags other than the operators whose lexemes have one spelling. -/
def punctuation : List Tag :=
  Bracket.all.map opening ++ Bracket.all.map closing ++ [comma, semicolon, colon, dot, ellipsis]

theorem isBracket_of_isTrivia {tag : Tag} (trivia : tag.isTrivia) : tag.isBracket = false := by
  cases tag with
  | trivia kind => rfl
  | _ => cases trivia

theorem isMalformed_of_isTrivia {tag : Tag} (trivia : tag.isTrivia) : tag.isMalformed = false := by
  cases tag with
  | trivia kind => rfl
  | _ => cases trivia

theorem isMalformed_iff {tag : Tag} : tag.isMalformed ↔ ∃ kind, tag = .malformed kind := by
  cases tag <;> simp [isMalformed]

theorem exists_operator {tag : Tag} (operates : tag.isUnaryOperator ∨ tag.isBinaryOperator) :
    ∃ kind, tag = .operator kind := by
  cases tag with
  | operator kind => exact ⟨kind, rfl⟩
  | _ => simp [isUnaryOperator, isBinaryOperator] at operates

theorem mem_punctuation_or_operator {tag : Tag} {text : String}
    (spelled : tag.spelling? = some text) :
    tag ∈ punctuation ∨ ∃ kind ∈ Operator.all, tag = .operator kind := by
  cases tag with
  | operator kind => exact .inr ⟨kind, by cases kind <;> decide, rfl⟩
  | opening bracket => cases bracket <;> exact .inl (by decide)
  | closing bracket => cases bracket <;> exact .inl (by decide)
  | comma | semicolon | colon | dot | ellipsis => exact .inl (by decide)
  | _ => simp [spelling?] at spelled

end Tag

end FragmentBounds
