import Mathlib.Control.Monad.Basic
import FragmentBounds.Proofs.Bracket.Closable
import FragmentBounds.Proofs.Fragment.Tracking

/-! Faults are the first that there are. In front of the token at fault no token
is malformed and the brackets could all be closed, whichever machine it is that
finds the fault; a bracket that is never closed is reported only where the
whole source is like that. -/
namespace FragmentBounds

structure Faultless (tokens : List Token) : Prop where
  wellFormed : ∀ token ∈ tokens, token.tag.isMalformed = false
  closable : Closable (tokens.map Token.tag)

/-- The first fault of a source, seen from its tokens alone. -/
inductive FirstFault (source : String) : Fault → Prop
  | malformed {front back : List Token} {token : Token} {kind : Malformation}
      (cut : tokens source = front ++ token :: back) (faultless : Faultless front)
      (tag : token.tag = .malformed kind) : FirstFault source (.malformed kind token.span.start)
  | unmatched {front back : List Token} {token : Token} {bracket : Bracket}
      (cut : tokens source = front ++ token :: back) (faultless : Faultless front)
      (tag : token.tag = .closing bracket)
      (stuck : ¬ Closable ((front ++ [token]).map Token.tag))
      (balanced : Balanced (front.map Token.tag)) :
      FirstFault source (.bracket (.unmatched bracket) token.span.start)
  | mismatched {front back : List Token} {token : Token} {opener : Opener} {bracket : Bracket}
      (cut : tokens source = front ++ token :: back) (faultless : Faultless front)
      (tag : token.tag = .closing bracket)
      (stuck : ¬ Closable ((front ++ [token]).map Token.tag))
      (innermost : InnermostOpen front opener) (other : opener.bracket ≠ bracket) :
      FirstFault source
        (.bracket (.mismatched opener.bracket opener.offset bracket) token.span.start)
  | unclosed {opener : Opener} (faultless : Faultless (tokens source))
      (innermost : InnermostOpen (tokens source) opener) :
      FirstFault source (.bracket (.unclosed opener.bracket) opener.offset)
  | unexpected {front back : List Token} {token : Token}
      (cut : tokens source = front ++ token :: back) (faultless : Faultless front)
      (what : Expectation) : FirstFault source (token.unexpected what)
  | ended (faultless : Faultless (tokens source))
      (balanced : Balanced ((tokens source).map Token.tag)) (what : Expectation) :
      FirstFault source ((Token.endOfInput source.utf8ByteSize).unexpected what)
  | tooLarge (large : maxOffset < source.utf8ByteSize) :
      FirstFault source (.sourceTooLarge source.utf8ByteSize)

namespace FirstFault

variable {source : String} {front back : List Token} {nesting : Nesting}

/-- A token refused behind faultless tokens is the first at fault. -/
theorem of_refuses {token : Token} {fault : Fault} (cut : tokens source = front ++ token :: back)
    (faultless : Faultless front) (tracked : Tracked .empty front nesting)
    (refuses : nesting.Refuses token fault) : FirstFault source fault := by
  cases refuses with
  | unexpected what => exact .unexpected cut faultless what
  | bracket failed =>
    have stuck := tracked.not_closable failed
    have leaves := tracked.leavesOpen
    rcases Nesting.track_eq_error.mp failed with ⟨bracket, tag, closes⟩
    rcases Nesting.close_eq_error.mp closes with
      ⟨none, rfl⟩ | ⟨opener, openers, inside, other, rfl⟩
    · rw [none] at leaves
      exact .unmatched cut faultless tag stuck leaves.balanced_of_nil
    · rw [inside] at leaves
      exact .mismatched cut faultless tag stuck leaves.innermostOpen other

theorem of_unfinished {fault : Fault} (faultless : Faultless (tokens source))
    (tracked : Tracked .empty (tokens source) nesting)
    (unfinished : nesting.Unfinished source.utf8ByteSize fault) : FirstFault source fault := by
  have leaves := tracked.leavesOpen
  cases unfinished with
  | unclosed failed =>
    obtain ⟨opener, openers, inside, rfl⟩ := Nesting.ensureClosed_eq_error.mp failed
    rw [inside] at leaves
    exact .unclosed faultless leaves.innermostOpen
  | unexpected closed what =>
    rw [(Nesting.isTopLevel_iff nesting).mp closed] at leaves
    exact .ended faultless leaves.balanced_of_nil what

end FirstFault

namespace Recognizer

variable {σ α : Type}

/-- Whatever a machine finds fault with is refused by its nesting, or is not
what it expects. -/
structure Faults (machine : Recognizer σ α) (nesting : σ → Nesting) : Prop where
  step : ∀ {state gap token fault}, machine.step state gap token = .error fault →
    (nesting state).Refuses token fault
  atEnd : ∀ {state size fault}, machine.atEnd state size = .error fault →
    (nesting state).Unfinished size fault

theorem Tracks.firstFault {machine : Recognizer σ α} {nesting : σ → Nesting}
    (tracks : machine.Tracks nesting) (faults : machine.Faults nesting) {source : String}
    {fault : Fault} (failed : machine.recognize source = .error fault) :
    FirstFault source fault := by
  rcases Nat.lt_or_ge maxOffset source.utf8ByteSize with large | fits
  · rw [recognize, TokenStream.ofSource, if_pos large] at failed
    cases failed
    exact .tooLarge large
  · rw [recognize_of_fits machine fits] at failed
    obtain ⟨front, back, last, lastGap, cut, reads, settles⟩ :=
      reads_settles machine source.utf8ByteSize machine.start .closed (tokens source)
    have tracked : Tracked .empty front (nesting last) := tracks.start ▸ tracks.tracked reads
    have faultless : Faultless front := ⟨reads.wellFormed, tracked.leavesOpen.closable⟩
    rw [failed] at settles
    generalize same : Except.error fault = outcome at settles
    cases settles with
    | atEnd =>
      obtain rfl : tokens source = front := by simpa using cut
      exact .of_unfinished faultless tracked (faults.atEnd same.symm)
    | malformed tag =>
      cases same
      exact .malformed cut faultless tag
    | fault _ _ stepped =>
      cases same
      exact .of_refuses cut faultless tracked (faults.step stepped)
    | done => cases same

end Recognizer

/-- Where a fragment cannot be recognised, its fault is the first of the source:
the first malformed token, the first closer at which the brackets stop being
the beginning of a balanced sequence, or, where there are none of these, the
innermost bracket that stays open. -/
theorem extract_first_fault {construct : Construct} {source : String} {fault : Fault}
    (failed : construct.extract source = .error fault) : FirstFault source fault := by
  cases construct with
  | ifHeader | forHeader | switchHeader =>
    exact Header.tracks.firstFault ⟨Header.step_error, Header.atEnd_error⟩ failed
  | label => exact Label.tracks.firstFault ⟨Label.step_error, Label.atEnd_error⟩ failed
  | expression =>
    exact Expression.tracks.firstFault ⟨Expression.step_error, Expression.atEnd_error⟩ failed
  | arguments =>
    exact Arguments.tracks.firstFault ⟨Arguments.step_error, Arguments.atEnd_error⟩ failed

/-- The square bracket is the first that does not fit, before the string that is
never closed. -/
theorem extract_first_fault_mismatched :
    Construct.ifHeader.extract "if f(a] \x7b \"" =
        .error (.bracket (.mismatched .paren 4 .square) 6) ∧
      FirstFault "if f(a] \x7b \"" (.bracket (.mismatched .paren 4 .square) 6) := by
  have failed : Construct.ifHeader.extract "if f(a] \x7b \"" =
      .error (.bracket (.mismatched .paren 4 .square) 6) := by decide +kernel
  exact ⟨failed, extract_first_fault failed⟩

end FragmentBounds
