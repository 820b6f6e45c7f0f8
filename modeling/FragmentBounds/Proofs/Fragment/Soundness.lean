import FragmentBounds.Proofs.Checked.Extraction
import FragmentBounds.Proofs.Fragment.Extents

/-! What holds of every answer, whatever the source is: no computation of it
leaves its range, and the answer is about a place in the source. -/
namespace FragmentBounds

namespace Construct

/-- The significant tokens before the fragment: a header leaves out its keyword. -/
def leading : Construct → Nat
  | .ifHeader | .forHeader | .switchHeader => 1
  | .label | .expression | .arguments => 0

def isFilled : Construct → Bool
  | .ifHeader | .label | .expression => true
  | .forHeader | .switchHeader | .arguments => false

end Construct

/-- The span lies in the source, cuts neither a character nor a token, and starts
with the first significant token of the fragment, or where there is none. -/
structure SoundSpan (construct : Construct) (source : String) (span : Span) : Prop where
  forward : span.start ≤ span.stop
  inside : span.stop ≤ source.utf8ByteSize
  startsChar : IsCharBoundary source span.start
  stopsChar : IsCharBoundary source span.stop
  startsToken : IsTokenBoundary source span.start
  stopsToken : IsTokenBoundary source span.stop
  leading : span.start = significantStart source construct.leading
  filled : construct.isFilled → span.start < span.stop

/-- The fault lies where a token starts, or at the end of the source. -/
structure SoundFault (source : String) (fault : Fault) : Prop where
  inside : fault.offset ≤ source.utf8ByteSize
  char : IsCharBoundary source fault.offset
  token : IsTokenBoundary source fault.offset

variable {construct : Construct} {source : String}

private theorem soundSpan_of_extent {span : Span} (extent : Extent source construct.leading span)
    (filled : construct.isFilled → span.start < span.stop) : SoundSpan construct source span where
  forward := extent.forward
  inside := extent.stops.isCharBoundary.le_size
  startsChar := extent.starts.isCharBoundary
  stopsChar := extent.stops.isCharBoundary
  startsToken := extent.starts
  stopsToken := extent.stops
  leading := extent.start
  filled := filled

theorem soundSpan_of_extract {span : Span} (found : construct.extract source = .ok span) :
    SoundSpan construct source span := by
  cases construct with
  | ifHeader =>
    obtain ⟨extent, filled⟩ := Header.extent found
    exact soundSpan_of_extent extent fun _ => filled rfl
  | forHeader | switchHeader =>
    obtain ⟨extent, -⟩ := Header.extent found
    exact soundSpan_of_extent extent fun none => by cases none
  | label =>
    obtain ⟨extent, filled⟩ := Label.extent found
    exact soundSpan_of_extent extent fun _ => filled
  | expression =>
    obtain ⟨extent, filled⟩ := Expression.extent found
    exact soundSpan_of_extent extent fun _ => filled
  | arguments => exact soundSpan_of_extent (Arguments.extent found) fun none => by cases none

theorem soundFault_of_extract {fault : Fault} (failed : construct.extract source = .error fault) :
    SoundFault source fault := by
  have token : IsTokenBoundary source fault.offset := by
    cases construct with
    | ifHeader | forHeader | switchHeader => exact Header.tracks.offset_of_error failed
    | label => exact Label.tracks.offset_of_error failed
    | expression => exact Expression.tracks.offset_of_error failed
    | arguments => exact Arguments.tracks.offset_of_error failed
  exact ⟨token.isCharBoundary.le_size, token.isCharBoundary, token⟩

/-- Extraction never gives up on a number that is out of range, a slice that is
reversed or a loop that does not move on, and its answer is sound. -/
theorem extract_sound (construct : Construct) (source : String) :
    construct.extractChecked source = .ok (construct.extract source) ∧
      match construct.extract source with
      | .ok span => SoundSpan construct source span
      | .error fault => SoundFault source fault := by
  refine ⟨construct.extractChecked_eq source, ?_⟩
  split
  · next found => exact soundSpan_of_extract found
  · next failed => exact soundFault_of_extract failed

example : Construct.expression.extract "é.f(x) \x7d" = .ok ⟨0, 7⟩ := by decide +kernel

example : Construct.label.extractChecked "case 'é" = .ok (.error (.malformed .unterminatedRune 5)) := by
  decide +kernel

end FragmentBounds
