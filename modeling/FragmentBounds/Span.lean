import FragmentBounds.Text.Utf8

/-! Half-open intervals of byte offsets into a source. Offsets that are kept
fit in 32 bits; a span may run backwards, and then covers nothing. -/
namespace FragmentBounds

/-- The largest offset that a source may have. -/
def maxOffset : Nat := 4294967295

structure Span where
  start : Nat
  stop : Nat
  deriving DecidableEq, Repr

inductive SpanError where
  | startTooLarge (start : Nat)
  | stopTooLarge (stop : Nat)
  deriving DecidableEq, Repr

namespace SpanError

def message : SpanError → String
  | .startTooLarge start => s!"span start {start} exceeds u32::MAX"
  | .stopTooLarge stop => s!"span end {stop} exceeds u32::MAX"

end SpanError

namespace Span

def point (offset : Nat) : Span := ⟨offset, offset⟩

def ofRange (start stop : Nat) : Except SpanError Span :=
  if maxOffset < start then .error (.startTooLarge start)
  else if maxOffset < stop then .error (.stopTooLarge stop)
  else .ok ⟨start, stop⟩

def length (span : Span) : Nat := span.stop - span.start

def isEmpty (span : Span) : Bool := decide (span.stop ≤ span.start)

def contains (span : Span) (offset : Nat) : Bool :=
  decide (span.start ≤ offset) && decide (offset < span.stop)

def merge (left right : Span) : Span :=
  ⟨min left.start right.start, max left.stop right.stop⟩

/-- The text a span covers, if it fits the source and cuts no character. -/
def get? (span : Span) (source : String) : Option String :=
  (Text.sliceBytes? span.start span.stop source.toList).map String.ofList

def slice (span : Span) (source : String) : String := (span.get? source).getD ""

instance : ToString Span where
  toString span := s!"{span.start}..{span.stop}"

theorem get?_eq_some {span : Span} {source text : String} :
    span.get? source = some text ↔ ∃ before after : List Char,
      source.toList = before ++ text.toList ++ after ∧ Text.byteSize before = span.start ∧
        span.start + text.utf8ByteSize = span.stop := by
  rw [get?, Option.map_eq_some_iff]
  constructor
  · rintro ⟨inside, cut, rfl⟩
    rw [← Text.byteSize_toList, String.toList_ofList]
    exact Text.sliceBytes?_eq_some.mp cut
  · intro cut
    rw [← Text.byteSize_toList] at cut
    exact ⟨text.toList, Text.sliceBytes?_eq_some.mpr cut, String.ofList_toList⟩

theorem size_le_of_get? {span : Span} {source text : String} (covers : span.get? source = some text) :
    text.utf8ByteSize ≤ source.utf8ByteSize := by
  obtain ⟨before, after, cut, -, -⟩ := get?_eq_some.mp covers
  rw [← Text.byteSize_toList, ← Text.byteSize_toList, cut, Text.byteSize_append,
    Text.byteSize_append]
  omega

theorem slice_point (source : String) (offset : Nat) : (point offset).slice source = "" := by
  rw [slice]
  cases covers : (point offset).get? source with
  | none => rfl
  | some text =>
    obtain ⟨_, _, -, -, size⟩ := get?_eq_some.mp covers
    rw [Option.getD_some, ← String.utf8ByteSize_eq_zero_iff]
    simpa [point] using size

end Span

end FragmentBounds
