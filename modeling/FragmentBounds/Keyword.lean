import FragmentBounds.Text.Utf8

/-! The reserved words of the host language. Predeclared names such as `true`
or `nil` are ordinary identifiers. -/
namespace FragmentBounds

inductive Keyword where
  | kwBreak
  | kwCase
  | kwChan
  | kwConst
  | kwContinue
  | kwDefault
  | kwDefer
  | kwElse
  | kwFallthrough
  | kwFor
  | kwFunc
  | kwGo
  | kwGoto
  | kwIf
  | kwImport
  | kwInterface
  | kwMap
  | kwPackage
  | kwRange
  | kwReturn
  | kwSelect
  | kwStruct
  | kwSwitch
  | kwType
  | kwVar
  deriving DecidableEq, Repr

namespace Keyword

def all : List Keyword :=
  [.kwBreak, .kwCase, .kwChan, .kwConst, .kwContinue, .kwDefault, .kwDefer, .kwElse,
    .kwFallthrough, .kwFor, .kwFunc, .kwGo, .kwGoto, .kwIf, .kwImport, .kwInterface, .kwMap,
    .kwPackage, .kwRange, .kwReturn, .kwSelect, .kwStruct, .kwSwitch, .kwType, .kwVar]

def spelling : Keyword → String
  | .kwBreak => "break"
  | .kwCase => "case"
  | .kwChan => "chan"
  | .kwConst => "const"
  | .kwContinue => "continue"
  | .kwDefault => "default"
  | .kwDefer => "defer"
  | .kwElse => "else"
  | .kwFallthrough => "fallthrough"
  | .kwFor => "for"
  | .kwFunc => "func"
  | .kwGo => "go"
  | .kwGoto => "goto"
  | .kwIf => "if"
  | .kwImport => "import"
  | .kwInterface => "interface"
  | .kwMap => "map"
  | .kwPackage => "package"
  | .kwRange => "range"
  | .kwReturn => "return"
  | .kwSelect => "select"
  | .kwStruct => "struct"
  | .kwSwitch => "switch"
  | .kwType => "type"
  | .kwVar => "var"

def ofText? (text : String) : Option Keyword := all.find? (·.spelling == text)

def ofSize : Nat → List (String × Keyword)
  | 2 => [("go", .kwGo), ("if", .kwIf)]
  | 3 => [("for", .kwFor), ("map", .kwMap), ("var", .kwVar)]
  | 4 => [("case", .kwCase), ("chan", .kwChan), ("else", .kwElse), ("func", .kwFunc),
      ("goto", .kwGoto), ("type", .kwType)]
  | 5 => [("break", .kwBreak), ("const", .kwConst), ("defer", .kwDefer), ("range", .kwRange)]
  | 6 => [("import", .kwImport), ("return", .kwReturn), ("select", .kwSelect),
      ("struct", .kwStruct), ("switch", .kwSwitch)]
  | 7 => [("default", .kwDefault), ("package", .kwPackage)]
  | 8 => [("continue", .kwContinue)]
  | 9 => [("interface", .kwInterface)]
  | 11 => [("fallthrough", .kwFallthrough)]
  | _ => []

/-- The keyword that a text spells, looked up by the size of the text and compared
only if the first byte may begin a keyword. -/
def lookup (text : String) : Option Keyword :=
  if 2 ≤ text.utf8ByteSize ∧ text.utf8ByteSize ≤ 11 ∧
      (Text.bytes text.toList).head?.any (fun byte => 97 ≤ byte && byte ≤ 122) then
    (ofSize text.utf8ByteSize).lookup text
  else none

/-- Keywords that begin a type literal, and so may stand in an expression. -/
def startsTypeLiteral : Keyword → Bool
  | .kwChan | .kwFunc | .kwInterface | .kwMap | .kwStruct => true
  | _ => false

/-- Type literals whose own braces list fields or methods, so that a composite
literal of them takes a second pair. -/
def hasTypeBody : Keyword → Bool
  | .kwInterface | .kwStruct => true
  | _ => false

theorem startsTypeLiteral_of_hasTypeBody {keyword : Keyword} (body : keyword.hasTypeBody) :
    keyword.startsTypeLiteral := by
  cases keyword <;> first | rfl | cases body

theorem ofText?_spelling (keyword : Keyword) : ofText? keyword.spelling = some keyword := by
  cases keyword <;> decide

theorem ofText?_eq_some {text : String} {keyword : Keyword} :
    ofText? text = some keyword ↔ keyword.spelling = text := by
  constructor
  · intro found
    simpa using List.find?_some found
  · rintro rfl
    exact ofText?_spelling keyword

end Keyword

end FragmentBounds
