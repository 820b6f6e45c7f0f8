import FragmentBounds.Proofs.Fragment.Steps
import FragmentBounds.Proofs.Recognizer.Tracking

/-! What each machine keeps of the tokens it has read: the brackets that are
open, and the span from the first token of the fragment to the last. -/
namespace FragmentBounds

open Recognizer

namespace Arguments

theorem follows : recognizer.Follows State.nesting := by
  intro state gap token inner nested tracked
  refine ⟨⟨inner, extendFragment state.fragment token⟩, ?_, rfl⟩
  change step state gap token = _
  rw [step, if_neg (by simp [nested]), tracked]
  rfl

theorem tracks : recognizer.Tracks State.nesting where
  start := rfl
  more := fun stepped => (step_more stepped).1
  fault := fun stepped => (step_error stepped).offset_eq
  atEnd := fun ended => (atEnd_error ended).offset_eq

theorem fragment_eq_hull {state last : State} {gap lastGap : Gap} {front : List Token}
    (reads : Reads recognizer state gap front last lastGap) :
    last.fragment = hull state.fragment front := by
  refine reads.hull (P := fun fragment state => state.fragment = fragment) ?_ rfl
  rintro _ state gap token next rfl stepped
  exact (step_more stepped).2

end Arguments

namespace TypeSwitch

theorem tracks : recognizer.Tracks State.nesting where
  start := rfl
  more := fun stepped => (step_more stepped).1
  fault := fun stepped => Nesting.offset_of_track_error (track_of_step_error stepped)
  atEnd := fun ended => .inr (Nesting.offset_of_ensureClosed_error (ensureClosed_of_atEnd_error ended))

end TypeSwitch

namespace Label

theorem follows : recognizer.Follows State.nesting := by
  intro state gap token inner nested tracked
  cases state with
  | keyword | colon keyword => cases nested
  | clause clause =>
    have nested : clause.nesting.isTopLevel = false := nested
    have tracked : clause.nesting.track token = .ok inner := tracked
    refine ⟨.clause ⟨clause.keyword, inner, false⟩, ?_, rfl⟩
    change clause.step token = _
    rw [Clause.step, if_neg (by simp [nested]), if_neg (by simp [nested]), tracked]
    rfl

theorem tracks : recognizer.Tracks State.nesting where
  start := rfl
  more := by
    intro state gap token next stepped
    rcases step_more stepped with ⟨rfl, spelled, rfl⟩ | ⟨rfl, spelled, rfl⟩ |
      ⟨clause, nesting, rfl, tracked, rfl⟩
    · exact Nesting.track_of_keyword? _ spelled
    · exact Nesting.track_of_keyword? _ spelled
    · exact tracked
  fault := fun stepped => (step_error stepped).offset_eq
  atEnd := fun ended => (atEnd_error ended).offset_eq

end Label

namespace Header

variable {keyword : Keyword}

theorem follows : (recognizer keyword).Follows State.nesting := by
  intro state gap token inner nested tracked
  cases state with
  | keyword => cases nested
  | clause clause =>
    have nested : clause.nesting.isTopLevel = false := nested
    have tracked : clause.nesting.track token = .ok inner := tracked
    refine ⟨.clause ⟨inner, clause.body, extendFragment clause.fragment token, endsOperand token⟩,
      ?_, rfl⟩
    change clause.step keyword token = _
    rw [Clause.step, if_neg (by simp [nested]), Clause.consume, tracked]
    rfl

theorem tracks : (recognizer keyword).Tracks State.nesting where
  start := rfl
  more := by
    intro state gap token next stepped
    cases state with
    | keyword =>
      obtain ⟨spelled, same⟩ := step_keyword stepped
      cases same
      exact Nesting.track_of_keyword? _ spelled
    | clause clause =>
      obtain ⟨after, rfl, tracked, -⟩ := step_more stepped
      exact tracked
  fault := fun stepped => (step_error stepped).offset_eq
  atEnd := fun ended => (atEnd_error ended).offset_eq

theorem fragment_eq_hull {clause : Clause} {last : State} {gap lastGap : Gap} {front : List Token}
    (reads : Reads (recognizer keyword) (.clause clause) gap front last lastGap) :
    ∃ after, last = .clause after ∧ after.fragment = hull clause.fragment front := by
  refine reads.hull (P := fun fragment state => ∃ after, state = .clause after ∧
    after.fragment = fragment) ?_ ⟨clause, rfl, rfl⟩
  rintro _ _ gap token next ⟨before, rfl, rfl⟩ stepped
  obtain ⟨after, same, -, covers, -, -⟩ := step_more stepped
  exact ⟨after, same, covers⟩

end Header

namespace Expression

theorem follows : recognizer.Follows State.nesting := by
  intro state gap token inner nested tracked
  refine ⟨⟨state.phase, inner, extendFragment state.fragment token, token.tag⟩, ?_, rfl⟩
  change step state gap token = _
  rw [step, if_neg (by simp [nested]), State.consume, tracked]
  rfl

theorem tracks : recognizer.Tracks State.nesting where
  start := rfl
  more := fun stepped => (step_more stepped).1
  fault := fun stepped => (step_error stepped).offset_eq
  atEnd := fun ended => (atEnd_error ended).offset_eq

theorem fragment_eq_hull {state last : State} {gap lastGap : Gap} {front : List Token}
    (reads : Reads recognizer state gap front last lastGap) :
    last.fragment = hull state.fragment front := by
  refine Reads.hull (P := fun fragment state => state.fragment = fragment) ?_ reads rfl
  rintro _ state gap token next rfl stepped
  exact (step_more stepped).2.1

end Expression

end FragmentBounds
