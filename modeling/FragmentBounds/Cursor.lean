import FragmentBounds.Span

/-! A byte position that moves forward through a source. It reads no more of the
source than offsets reach. Beyond the end every byte reads as zero, so that a
zero byte in the source and the end are told apart by the position alone. -/
namespace FragmentBounds

structure Cursor where
  source : String
  pos : Nat
  deriving DecidableEq, Repr

/-- Asked for the text between two offsets in the wrong order. -/
structure ReversedSlice where
  start : Nat
  stop : Nat
  deriving DecidableEq, Repr

def ReversedSlice.message (slice : ReversedSlice) : String :=
  s!"slice start {slice.start} exceeds end {slice.stop}"

namespace Cursor

def ofSource (source : String) : Cursor := ⟨source, 0⟩

/-- The number of bytes that are read. A longer source is cut at the largest
offset, wherever that falls in a character. -/
def size (cursor : Cursor) : Nat := min cursor.source.utf8ByteSize maxOffset

def rest (cursor : Cursor) : List UInt8 :=
  ((Text.bytes cursor.source.toList).take cursor.size).drop cursor.pos

def isAtEnd (cursor : Cursor) : Bool := decide (cursor.size ≤ cursor.pos)

def peek (cursor : Cursor) (ahead : Nat) : UInt8 := (cursor.rest.drop ahead).headD 0

def current (cursor : Cursor) : UInt8 := cursor.peek 0

def currentChar? (cursor : Cursor) : Option Char :=
  if cursor.isAtEnd then none
  else (Text.splitBytes? cursor.pos cursor.source.toList).bind (·.2.head?)

def advanceBy (cursor : Cursor) (count : Nat) : Cursor :=
  { cursor with pos := min (cursor.pos + count) cursor.size }

def advance (cursor : Cursor) : Cursor := cursor.advanceBy 1

/-- Moves past the character that starts here, or past one byte of a character
that started before. -/
def advanceChar (cursor : Cursor) : Cursor :=
  cursor.advanceBy ((cursor.currentChar?.map Char.utf8Size).getD 1)

/-- The text between two offsets of the source, empty where they cut a character
or lie beyond its end. -/
def slice (cursor : Cursor) (start stop : Nat) : Except ReversedSlice String :=
  if stop < start then .error ⟨start, stop⟩
  else .ok (String.ofList ((Text.sliceBytes? start stop cursor.source.toList).getD []))

def sliceFrom (cursor : Cursor) (start : Nat) : Except ReversedSlice String :=
  cursor.slice start cursor.pos

def eatWhile (cursor : Cursor) (p : UInt8 → Bool) : Cursor :=
  { cursor with pos := cursor.pos + (cursor.rest.takeWhile p).length }

/-- Moves past at most `limit` bytes that satisfy `p`, and counts them. -/
def eatUpTo (cursor : Cursor) (limit : Nat) (p : UInt8 → Bool) : Nat × Cursor :=
  let count := ((cursor.rest.take limit).takeWhile p).length
  (count, { cursor with pos := cursor.pos + count })

def eatLine (cursor : Cursor) : Cursor := cursor.eatWhile (· != '\n'.toUInt8)

def eatBlanks (cursor : Cursor) : Cursor :=
  cursor.eatWhile fun byte => byte == ' '.toUInt8 || byte == '\t'.toUInt8

/-- Moves to the next quote, backslash or line feed and gives that byte, or
zero at the end. -/
def skipToDelimiter (cursor : Cursor) (quote : UInt8) : UInt8 × Cursor :=
  let there := cursor.eatWhile fun byte =>
    byte != quote && byte != '\\'.toUInt8 && byte != '\n'.toUInt8
  (there.current, there)

/-- Moves to the next `byte` or to the end, and counts the bytes passed. -/
def eatUntil (cursor : Cursor) (byte : UInt8) : Nat × Cursor :=
  let there := cursor.eatWhile (· != byte)
  (there.pos - cursor.pos, there)

def commentLength? : List UInt8 → Option Nat
  | first :: second :: bytes =>
    if first == '*'.toUInt8 && second == '/'.toUInt8 then some 2
    else (commentLength? (second :: bytes)).map (· + 1)
  | _ => none

/-- Moves past the mark that closes a block comment. Without one, moves to the
end and answers `false`. -/
def eatCommentBody (cursor : Cursor) : Bool × Cursor :=
  match commentLength? cursor.rest with
  | some count => (true, { cursor with pos := cursor.pos + count })
  | none => (false, { cursor with pos := cursor.size })

theorem size_le (cursor : Cursor) : cursor.size ≤ maxOffset := Nat.min_le_right _ _

theorem length_rest (cursor : Cursor) : cursor.rest.length = cursor.size - cursor.pos := by
  have within : cursor.size ≤ cursor.source.utf8ByteSize := Nat.min_le_left _ _
  rw [rest, List.length_drop, List.length_take, Text.length_bytes, Text.byteSize_toList,
    Nat.min_eq_left within]

section Fits

variable {cursor : Cursor} (fits : cursor.source.utf8ByteSize ≤ maxOffset)
include fits

theorem size_of_fits : cursor.size = cursor.source.utf8ByteSize := Nat.min_eq_left fits

theorem rest_of_fits : cursor.rest = (Text.bytes cursor.source.toList).drop cursor.pos := by
  rw [rest, size_of_fits fits, ← Text.byteSize_toList, ← Text.length_bytes, List.take_length]

end Fits

end Cursor

end FragmentBounds
