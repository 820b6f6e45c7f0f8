import FragmentBounds.Lexeme.Basic

/-! Numeric literals. A numeral is a sequence of pieces, each of which may be
empty: the mark of its radix, the whole part, a fraction, an exponent and the
imaginary unit. Digits that are too large for a radix still belong to it. -/
namespace FragmentBounds.Lexeme

inductive Radix where
  | decimal
  | hexadecimal
  | octal
  | binary
  deriving DecidableEq, Repr

def isDecimalDigit (c : Char) : Bool := c.isDigit || c == '_'

def isHexDigit (c : Char) : Bool :=
  c.isDigit || decide ('a' ≤ c ∧ c ≤ 'f') || decide ('A' ≤ c ∧ c ≤ 'F')

namespace Radix

def isDigit : Radix → Char → Bool
  | .hexadecimal, c => isHexDigit c || c == '_'
  | _, c => isDecimalDigit c

def hasFraction : Radix → Bool
  | .decimal | .hexadecimal => true
  | .octal | .binary => false

def isExponentMark : Radix → Char → Bool
  | .decimal, c => c == 'e' || c == 'E'
  | .hexadecimal, c => c == 'p' || c == 'P'
  | .octal, _ | .binary, _ => false

def ofMark? (c : Char) : Option Radix :=
  if c == 'x' || c == 'X' then some .hexadecimal
  else if c == 'o' || c == 'O' then some .octal
  else if c == 'b' || c == 'B' then some .binary
  else none

end Radix

/-- The radix of a numeral, the mark that gives it, and what follows the mark. -/
def radixMark : List Char → Radix × List Char × List Char
  | '0' :: c :: text =>
    match Radix.ofMark? c with
    | some radix => (radix, ['0', c], text)
    | none => (.decimal, [], '0' :: c :: text)
  | text => (.decimal, [], text)

def fraction (radix : Radix) : List Char → List Char × List Char
  | '.' :: text =>
    if radix.hasFraction then
      ('.' :: text.takeWhile radix.isDigit, text.dropWhile radix.isDigit)
    else ([], '.' :: text)
  | text => ([], text)

def sign : List Char → List Char × List Char
  | '+' :: text => (['+'], text)
  | '-' :: text => (['-'], text)
  | text => ([], text)

/-- An exponent. Its digits are decimal whatever the radix. -/
def exponent (radix : Radix) : List Char → List Char × List Char
  | [] => ([], [])
  | c :: text =>
    if radix.isExponentMark c then
      let (mark, digits) := sign text
      (c :: mark ++ digits.takeWhile isDecimalDigit, digits.dropWhile isDecimalDigit)
    else ([], c :: text)

def imaginaryUnit : List Char → List Char × List Char
  | 'i' :: text => (['i'], text)
  | text => ([], text)

def startsNumeral : List Char → Bool
  | [] => false
  | '.' :: c :: _ => c.isDigit
  | c :: _ => c.isDigit

structure Numeral where
  mark : List Char
  whole : List Char
  fraction : List Char
  exponent : List Char
  unit : List Char
  deriving DecidableEq, Repr

namespace Numeral

def text (numeral : Numeral) : List Char :=
  numeral.mark ++ numeral.whole ++ numeral.fraction ++ numeral.exponent ++ numeral.unit

def kind (numeral : Numeral) : Literal :=
  if numeral.unit ≠ [] then .imaginary
  else if numeral.fraction ≠ [] ∨ numeral.exponent ≠ [] then .float
  else .int

def read (text : List Char) : Numeral × List Char :=
  let marked := radixMark text
  let whole := marked.2.2.takeWhile marked.1.isDigit
  let divided := Lexeme.fraction marked.1 (marked.2.2.dropWhile marked.1.isDigit)
  let raised := Lexeme.exponent marked.1 divided.2
  let ended := imaginaryUnit raised.2
  (⟨marked.2.1, whole, divided.1, raised.1, ended.1⟩, ended.2)

end Numeral

def numeral? : Reader := fun text =>
  if startsNumeral text then
    let (numeral, rest) := Numeral.read text
    some (⟨.literal numeral.kind, numeral.text⟩, rest)
  else none

theorem radixMark_append (text : List Char) :
    (radixMark text).2.1 ++ (radixMark text).2.2 = text := by
  unfold radixMark
  split
  · split <;> rfl
  · rfl

theorem fraction_append (radix : Radix) (text : List Char) :
    (fraction radix text).1 ++ (fraction radix text).2 = text := by
  unfold fraction
  split
  · split
    · simp [List.takeWhile_append_dropWhile]
    · rfl
  · rfl

theorem sign_append (text : List Char) : (sign text).1 ++ (sign text).2 = text := by
  unfold sign
  split <;> rfl

theorem exponent_append (radix : Radix) (text : List Char) :
    (exponent radix text).1 ++ (exponent radix text).2 = text := by
  unfold exponent
  split
  · rfl
  · split
    · simp [List.append_assoc, List.takeWhile_append_dropWhile, sign_append]
    · rfl

theorem imaginaryUnit_append (text : List Char) :
    (imaginaryUnit text).1 ++ (imaginaryUnit text).2 = text := by
  unfold imaginaryUnit
  split <;> rfl

namespace Numeral

theorem text_read (text : List Char) : (read text).1.text ++ (read text).2 = text := by
  simp [read, Numeral.text, List.append_assoc, imaginaryUnit_append, exponent_append,
    fraction_append, List.takeWhile_append_dropWhile, radixMark_append]

theorem text_read_ne_nil {text : List Char} (starts : startsNumeral text) :
    (read text).1.text ≠ [] := by
  have leading {c : Char} {text : List Char} (digit : c.isDigit) :
      (c :: text).takeWhile Radix.decimal.isDigit = c :: text.takeWhile Radix.decimal.isDigit := by
    simp [Radix.isDigit, isDecimalDigit, digit]
  unfold startsNumeral at starts
  split at starts
  · simp at starts
  · have point : Radix.decimal.isDigit '.' = false := by decide
    simp [Numeral.text, read, radixMark, point, Lexeme.fraction, Radix.hasFraction]
  · next c text _ =>
    simp only [Numeral.text, read]
    unfold radixMark
    split
    · split
      · simp
      · rw [leading (by decide)]
        simp
    · rw [leading starts]
      simp

end Numeral

theorem numeral?_cuts : Cuts numeral? := by
  intro text lexeme rest first
  unfold numeral? at first
  split at first
  · next starts =>
    obtain ⟨rfl, rfl⟩ := Prod.mk.inj (Option.some.inj first)
    exact ⟨Numeral.text_read_ne_nil starts, Numeral.text_read text⟩
  · simp at first

end FragmentBounds.Lexeme
