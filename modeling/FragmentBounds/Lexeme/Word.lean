import FragmentBounds.Lexeme.Basic
import FragmentBounds.Keyword
import FragmentBounds.Text.Alphabetic
import FragmentBounds.Text.Numeric

/-! Identifiers: a letter followed by letters and digits, where the underscore
counts as a letter. -/
namespace FragmentBounds.Lexeme

def isLetter (c : Char) : Bool := c == '_' || Text.isAlphabetic c

def isLetterOrDigit (c : Char) : Bool := isLetter c || Text.isNumeric c

/-- The bytes that go on with an identifier, of those that are characters. -/
def isWordByte (byte : UInt8) : Bool :=
  (97 ≤ byte && byte ≤ 122) || (65 ≤ byte && byte ≤ 90) || (48 ≤ byte && byte ≤ 57) || byte == 95

def word? : Reader
  | [] => none
  | c :: text =>
    if isLetter c then
      some (⟨.identifier, c :: text.takeWhile isLetterOrDigit⟩, text.dropWhile isLetterOrDigit)
    else none

/-- Whether a text is a name: an identifier that is no keyword. -/
def isName (source : String) : Bool :=
  match source.toList with
  | [] => false
  | c :: text => isLetter c && text.all isLetterOrDigit && (Keyword.ofText? source).isNone

theorem word?_cuts : Cuts word? := by
  intro text lexeme rest first
  unfold word? at first
  split at first
  · simp at first
  · split at first
    · cases first
      simp [List.takeWhile_append_dropWhile]
    · simp at first

end FragmentBounds.Lexeme
