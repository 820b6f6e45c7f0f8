import FragmentBounds.Lexeme.Sequence

/-! Lexemes by tag and size alone, one at a time, from any byte offset. The
bytes left of a character that the offset falls inside are invalid one by one.
A text may have any size here: that a source is read up to `maxOffset` bytes only
is a matter of the cursor that reads it. -/
namespace FragmentBounds

/-- A lexeme without its text. -/
structure Piece where
  tag : Tag
  size : Nat
  deriving DecidableEq, Repr

def Lexeme.piece (lexeme : Lexeme) : Piece := ⟨lexeme.tag, lexeme.byteSize⟩

def pieces (text : List Char) : List Piece := (lexemes text).map Lexeme.piece

/-- A scanner at `pos`, with `stray` bytes in front of the characters to come. -/
structure Scanner where
  pos : Nat
  stray : Nat
  rest : List Char
  deriving DecidableEq, Repr

namespace Scanner

/-- A scanner `pos` bytes into a text, or at its end. -/
def ofText (text : List Char) (pos : Nat) : Scanner :=
  let (stray, rest) := Text.resume pos text
  ⟨min pos (Text.byteSize text), stray, rest⟩

def strayPiece : Piece := ⟨.malformed .invalidCharacter, 1⟩

/-- The next piece. At the end it is an empty one, however often it is asked for. -/
def next (scanner : Scanner) : Piece × Scanner :=
  match scanner.stray with
  | stray + 1 => (strayPiece, { scanner with pos := scanner.pos + 1, stray := stray })
  | 0 =>
    match Lexeme.first? scanner.rest with
    | none => (⟨.endOfInput, 0⟩, scanner)
    | some (lexeme, rest) =>
      (lexeme.piece, { scanner with pos := scanner.pos + lexeme.byteSize, rest := rest })

def isAtEnd (scanner : Scanner) : Bool := scanner.stray == 0 && scanner.rest.isEmpty

def toList (scanner : Scanner) : List Piece :=
  List.replicate scanner.stray strayPiece ++ pieces scanner.rest

theorem next_of_isAtEnd {scanner : Scanner} (ended : scanner.isAtEnd) :
    scanner.next = (⟨.endOfInput, 0⟩, scanner) := by
  obtain ⟨pos, stray, rest⟩ := scanner
  simp only [isAtEnd, Bool.and_eq_true, beq_iff_eq, List.isEmpty_iff] at ended
  obtain ⟨rfl, rfl⟩ := ended
  have first := Lexeme.first?_eq_none.mpr (rfl : [] = [])
  simp [next, first]

theorem toList_next {scanner : Scanner} (more : ¬ scanner.isAtEnd) :
    scanner.toList = scanner.next.1 :: scanner.next.2.toList := by
  obtain ⟨pos, stray, rest⟩ := scanner
  cases stray with
  | succ stray => simp [toList, next, strayPiece, List.replicate_succ]
  | zero =>
    cases first : Lexeme.first? rest with
    | none => simp [isAtEnd, Lexeme.first?_eq_none.mp first] at more
    | some found =>
      obtain ⟨lexeme, after⟩ := found
      simp [toList, next, first, pieces, lexemes_of_first? first]

end Scanner

end FragmentBounds
