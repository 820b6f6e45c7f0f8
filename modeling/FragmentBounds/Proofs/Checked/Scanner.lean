import FragmentBounds.Lexeme.Scanner
import FragmentBounds.Proofs.Checked.Arithmetic

/-! The scanner at work on bytes. It looks at the byte under its cursor and at
most two further on, and moves the cursor over what it takes in; every sum and
difference of offsets is checked. -/
namespace FragmentBounds.Checked

open Lexeme

def ascii (p : Char → Bool) (byte : UInt8) : Bool :=
  decide (byte < 128) && p (Char.ofNat byte.toNat)

abbrev Scan := Cursor → Except Panic (Piece × Cursor)

def piece (start : Nat) (tag : Tag) : Scan := fun cursor => do
  let size ← sub cursor.pos start
  return (⟨tag, size⟩, cursor)

def single (start : Nat) (tag : Tag) : Scan := fun cursor => do
  let cursor ← moved cursor.advance
  piece start tag cursor

/-- The end of the source, or a zero byte in it. -/
def zero (start : Nat) : Scan := fun cursor =>
  if cursor.isAtEnd then .ok (⟨.endOfInput, 0⟩, cursor)
  else single start (.malformed .invalidCharacter) cursor

section Trivia

def blanks (start : Nat) : Scan := fun cursor => do
  let cursor ← moved cursor.eatBlanks
  piece start (.trivia .whitespace) cursor

def carriageReturn (start : Nat) : Scan := fun cursor => do
  let cursor ← moved cursor.advance
  if cursor.current == '\n'.toUInt8 then single start (.trivia .newline) cursor
  else piece start (.trivia .whitespace) cursor

def lineComment (start : Nat) : Scan := fun cursor => do
  let cursor ← moved cursor.eatLine
  piece start (.trivia .lineComment) cursor

def blockComment (start : Nat) : Scan := fun cursor => do
  let cursor ← moved cursor.advance
  let next ← moved cursor.eatCommentBody.2
  piece start (if cursor.eatCommentBody.1 then .trivia .blockComment
    else .malformed .unterminatedComment) next

def slash (start : Nat) : Scan := fun cursor => do
  let cursor ← moved cursor.advance
  if cursor.current == '/'.toUInt8 then lineComment start cursor
  else if cursor.current == '*'.toUInt8 then blockComment start cursor
  else if cursor.current == '='.toUInt8 then single start (.operator .compoundAssign) cursor
  else piece start (.operator .slash) cursor

end Trivia

section Words

def wordRound (cursor : Cursor) (_ : Unit) : Except Panic (Step (Cursor × Unit) Cursor) := do
  if ascii isLetterOrDigit cursor.current then
    return .more (← moved cursor.advance, ())
  else if 128 ≤ cursor.current && cursor.currentChar?.any isLetterOrDigit then
    return .more (← moved cursor.advanceChar, ())
  else return .done cursor

def word (start : Nat) : Scan := fun cursor => do
  let cursor ← moved cursor.advanceChar
  let cursor ← loop wordRound cursor ()
  piece start .identifier cursor

def nonAscii (start : Nat) : Scan := fun cursor => do
  if cursor.currentChar?.any Text.isAlphabetic then word start cursor
  else
    let cursor ← moved cursor.advanceChar
    piece start (.malformed .invalidCharacter) cursor

end Words

section Symbols

def withEquals (start : Nat) (equal alone : Tag) : Scan := fun cursor => do
  let cursor ← moved cursor.advance
  if cursor.current == '='.toUInt8 then single start equal cursor
  else piece start alone cursor

def withAssign (start : Nat) (operator : Operator) : Scan :=
  withEquals start (.operator .compoundAssign) (.operator operator)

def doubled (start : Nat) (c : Char) (twice once : Operator) : Scan := fun cursor => do
  if cursor.peek 1 == c.toUInt8 then
    let cursor ← moved (cursor.advanceBy 2)
    piece start (.operator twice) cursor
  else withAssign start once cursor

def ampersand (start : Nat) : Scan := fun cursor => do
  if cursor.peek 1 == '&'.toUInt8 then
    let cursor ← moved (cursor.advanceBy 2)
    piece start (.operator .logicalAnd) cursor
  else if cursor.peek 1 == '^'.toUInt8 then
    let cursor ← moved cursor.advance
    withAssign start .andNot cursor
  else withAssign start .ampersand cursor

def less (start : Nat) : Scan := fun cursor => do
  let cursor ← moved cursor.advance
  if cursor.current == '<'.toUInt8 then withAssign start .shiftLeft cursor
  else if cursor.current == '='.toUInt8 then single start (.operator .lessEqual) cursor
  else if cursor.current == '-'.toUInt8 then single start (.operator .arrow) cursor
  else piece start (.operator .less) cursor

def greater (start : Nat) : Scan := fun cursor => do
  let cursor ← moved cursor.advance
  if cursor.current == '>'.toUInt8 then withAssign start .shiftRight cursor
  else if cursor.current == '='.toUInt8 then single start (.operator .greaterEqual) cursor
  else piece start (.operator .greater) cursor

end Symbols

section Numerals

def digits (radix : Radix) (cursor : Cursor) : Except Panic Cursor :=
  moved (cursor.eatWhile (ascii radix.isDigit))

def radixAt? (cursor : Cursor) : Option Radix :=
  if cursor.current < 128 then Radix.ofMark? (Char.ofNat cursor.current.toNat) else none

def radixMark (leading : UInt8) (cursor : Cursor) : Except Panic (Radix × Cursor) := do
  if leading == '0'.toUInt8 then
    match radixAt? cursor with
    | some radix => return (radix, ← moved cursor.advance)
    | none => return (.decimal, cursor)
  else return (.decimal, cursor)

def exponent (radix : Radix) (cursor : Cursor) : Except Panic (Bool × Cursor) := do
  if ascii radix.isExponentMark cursor.current then
    let cursor ← moved cursor.advance
    if ascii (fun c => c == '+' || c == '-') cursor.current then
      let cursor ← moved cursor.advance
      return (true, ← digits .decimal cursor)
    else return (true, ← digits .decimal cursor)
  else return (false, cursor)

def suffix (start : Nat) (radix : Radix) (divided : Bool) : Scan := fun cursor => do
  let (raised, cursor) ← exponent radix cursor
  if cursor.current == 'i'.toUInt8 then single start (.literal .imaginary) cursor
  else piece start (.literal (if divided || raised then .float else .int)) cursor

def fraction (start : Nat) (radix : Radix) : Scan := fun cursor => do
  let cursor ← moved cursor.advance
  let cursor ← digits radix cursor
  suffix start radix true cursor

def numeral (start : Nat) : Scan := fun cursor => do
  let leading := cursor.current
  let cursor ← moved cursor.advance
  let (radix, cursor) ← radixMark leading cursor
  let cursor ← digits radix cursor
  if cursor.current == '.'.toUInt8 && radix.hasFraction then fraction start radix cursor
  else suffix start radix false cursor

def dot (start : Nat) : Scan := fun cursor => do
  if ascii Char.isDigit (cursor.peek 1) then fraction start .decimal cursor
  else if cursor.peek 1 == '.'.toUInt8 && cursor.peek 2 == '.'.toUInt8 then
    let cursor ← moved (cursor.advanceBy 3)
    piece start .ellipsis cursor
  else single start .dot cursor

end Numerals

section Quoted

def hexEscape (limit : Nat) (cursor : Cursor) : Except Panic Cursor := do
  let cursor ← moved cursor.advance
  moved (cursor.eatUpTo limit (ascii isHexDigit)).2

/-- Up to three octal digits, or a character. A line feed stays for the literal
to end at. -/
def shortEscape (cursor : Cursor) : Except Panic Cursor := do
  if ascii isOctalDigit cursor.current then moved (cursor.eatUpTo 3 (ascii isOctalDigit)).2
  else if cursor.current == '\n'.toUInt8 then return cursor
  else if cursor.isAtEnd then return cursor
  else moved cursor.advanceChar

def escape (cursor : Cursor) : Except Panic Cursor :=
  if cursor.current == 'x'.toUInt8 then hexEscape 2 cursor
  else if cursor.current == 'u'.toUInt8 then hexEscape 4 cursor
  else if cursor.current == 'U'.toUInt8 then hexEscape 8 cursor
  else shortEscape cursor

def stringRound (start : Nat) (cursor : Cursor) (_ : Unit) :
    Except Panic (Step (Cursor × Unit) (Piece × Cursor)) := do
  let byte := (cursor.skipToDelimiter '"'.toUInt8).1
  let cursor ← moved (cursor.skipToDelimiter '"'.toUInt8).2
  if byte == '"'.toUInt8 then .done <$> single start (.literal .string) cursor
  else if byte == '\\'.toUInt8 then
    let cursor ← moved cursor.advance
    return .more (← escape cursor, ())
  else .done <$> piece start (.malformed .unterminatedString) cursor

def string (start : Nat) : Scan := fun cursor => do
  let cursor ← moved cursor.advance
  loop (stringRound start) cursor ()

def sliceFrom (start : Nat) (cursor : Cursor) : Except Panic String :=
  (cursor.sliceFrom start).mapError .reversed

def runeRound (start : Nat) (cursor : Cursor) (count : Nat) :
    Except Panic (Step (Cursor × Nat) (Piece × Cursor)) := do
  let before := cursor.pos
  let byte := (cursor.skipToDelimiter '\''.toUInt8).1
  let cursor ← moved (cursor.skipToDelimiter '\''.toUInt8).2
  let plain ← sliceFrom before cursor
  let count ← add count plain.length
  if byte == '\''.toUInt8 then
    .done <$> single start (if count = 1 then .literal .rune else .malformed .invalidRune) cursor
  else if byte == '\\'.toUInt8 then
    let cursor ← moved cursor.advance
    let cursor ← escape cursor
    return .more (cursor, ← add count 1)
  else .done <$> piece start (.malformed .unterminatedRune) cursor

def rune (start : Nat) : Scan := fun cursor => do
  let cursor ← moved cursor.advance
  loop (runeRound start) cursor 0

def rawString (start : Nat) : Scan := fun cursor => do
  let cursor ← moved cursor.advance
  let next ← moved (cursor.eatUntil '\x60'.toUInt8).2
  let _ ← sub next.pos cursor.pos
  if next.isAtEnd then piece start (.malformed .unterminatedRawString) next
  else single start (.literal .rawString) next

end Quoted

def scanAscii (start : Nat) (c : Char) : Scan :=
  match c with
  | ' ' | '\t' => blanks start
  | '\r' => carriageReturn start
  | '\n' => single start (.trivia .newline)
  | '"' => string start
  | '\'' => rune start
  | '\x60' => rawString start
  | '/' => slash start
  | '+' => doubled start '+' .increment .plus
  | '-' => doubled start '-' .decrement .minus
  | '*' => withAssign start .star
  | '%' => withAssign start .percent
  | '^' => withAssign start .caret
  | '&' => ampersand start
  | '|' => doubled start '|' .logicalOr .pipe
  | '<' => less start
  | '>' => greater start
  | '=' => withEquals start (.operator .equal) (.operator .assign)
  | '!' => withEquals start (.operator .notEqual) (.operator .bang)
  | ':' => withEquals start (.operator .define) .colon
  | '.' => dot start
  | '~' => single start (.operator .tilde)
  | '(' => single start (.opening .paren)
  | ')' => single start (.closing .paren)
  | '[' => single start (.opening .square)
  | ']' => single start (.closing .square)
  | '\x7b' => single start (.opening .brace)
  | '\x7d' => single start (.closing .brace)
  | ',' => single start .comma
  | ';' => single start .semicolon
  | c =>
    if isLetter c then word start
    else if c.isDigit then numeral start
    else single start (.malformed .invalidCharacter)

def scan : Scan := fun cursor =>
  if cursor.current == 0 then zero cursor.pos cursor
  else if 128 ≤ cursor.current then nonAscii cursor.pos cursor
  else scanAscii cursor.pos (Char.ofNat cursor.current.toNat) cursor

end FragmentBounds.Checked
