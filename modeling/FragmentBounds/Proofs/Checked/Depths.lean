import FragmentBounds.Proofs.Bracket.Nesting
import FragmentBounds.Proofs.Checked.Arithmetic

/-! The depths of open brackets, counted in 32 bits. No source that can be read
has as many brackets as would be too many to count. -/
namespace FragmentBounds.Checked

/-- The depths after a token. A closer counts only if it matches. -/
def count (nesting : Nesting) (token : Token) : Except Panic Depths :=
  match token.tag with
  | .opening bracket => do
    let deeper ← add (nesting.depthOf bracket) 1
    return nesting.depths.modify bracket fun _ => deeper
  | .closing bracket => do
    if nesting.innermost?.any (·.bracket = bracket) then
      let shallower ← sub (nesting.depthOf bracket) 1
      return nesting.depths.modify bracket fun _ => shallower
    else return nesting.depths
  | _ => return nesting.depths

/-- Every depth is the number of brackets of its family that are open, of which
there are no more than bytes before an offset. -/
structure Tally (nesting : Nesting) (offset : Nat) : Prop where
  counts : ∀ bracket, nesting.depthOf bracket = nesting.openers.countP (·.bracket = bracket)
  few : nesting.openers.length ≤ offset

variable {nesting next : Nesting} {token : Token} {offset stop : Nat}

namespace Tally

theorem empty : Tally .empty 0 := ⟨fun bracket => by cases bracket <;> rfl, Nat.le_refl 0⟩

theorem mono (tally : Tally nesting offset) (further : offset ≤ stop) : Tally nesting stop :=
  ⟨tally.counts, Nat.le_trans tally.few further⟩

theorem depth_le (tally : Tally nesting offset) (bracket : Bracket) :
    nesting.depthOf bracket ≤ offset := by
  rw [tally.counts bracket]
  exact Nat.le_trans List.countP_le_length tally.few

theorem push (tally : Tally nesting offset) (further : offset < stop) (bracket : Bracket)
    (opened : Nat) : Tally (nesting.push bracket opened) stop := by
  refine ⟨fun other => ?_, Nat.le_trans (Nat.succ_le_succ tally.few) further⟩
  have counted := tally.counts other
  simp only [Nesting.depthOf] at counted
  simp only [Nesting.depthOf, Nesting.push, Depths.get_modify, List.countP_cons, counted,
    decide_eq_true_eq]
  split <;> rfl

theorem innermost (tally : Tally nesting offset) {opener : Opener} {openers : List Opener}
    (inside : nesting.openers = opener :: openers) : 0 < nesting.depthOf opener.bracket := by
  rw [tally.counts, inside, List.countP_pos_iff]
  exact ⟨opener, List.mem_cons_self, by simp⟩

theorem close (tally : Tally nesting offset) (further : offset < stop) {bracket : Bracket}
    {closed : Nat} (closes : nesting.close bracket closed = .ok next) : Tally next stop := by
  obtain ⟨opener, openers, inside, rfl, rfl⟩ := Nesting.close_eq_ok.mp closes
  have few : openers.length ≤ stop := by
    have few := tally.few
    rw [inside, List.length_cons] at few
    omega
  refine ⟨fun other => ?_, few⟩
  have counted := tally.counts other
  rw [Nesting.depthOf, inside, List.countP_cons] at counted
  simp only [Nesting.depthOf, Depths.get_modify, counted, decide_eq_true_eq]
  split <;> rfl

theorem track (tally : Tally nesting offset) (further : offset < stop)
    (tracked : nesting.track token = .ok next) : Tally next stop := by
  unfold Nesting.track at tracked
  split at tracked
  · cases tracked
    exact tally.push further _ _
  · exact tally.close further tracked
  · cases tracked
    exact tally.mono (Nat.le_of_lt further)

end Tally

theorem returns_count (tally : Tally nesting offset) (fits : offset < maxOffset) (token : Token) :
    Returns (count nesting token) fun depths => ∀ next, nesting.track token = .ok next →
      depths = next.depths := by
  unfold count
  split
  · next bracket tag =>
    -- Each open bracket is a byte of the source, of which there are at most as many.
    have small := tally.depth_le bracket
    refine .add (by omega) ?_
    apply Returns.pure
    intro next tracked
    rw [Nesting.track_opening nesting tag] at tracked
    cases tracked
    cases bracket <;> rfl
  · next bracket tag =>
    have track : nesting.track token = nesting.close bracket token.span.start := by
      rw [Nesting.track, tag]
    split
    · next here =>
      obtain ⟨opener, innermost, same⟩ := (Option.any_eq_true _ _).mp here
      obtain ⟨openers, inside⟩ := List.head?_eq_some_iff.mp innermost
      have same : opener.bracket = bracket := by simpa using same
      subst same
      refine .sub (tally.innermost inside) ?_
      apply Returns.pure
      intro next tracked
      rw [track] at tracked
      obtain ⟨_, _, -, -, rfl⟩ := Nesting.close_eq_ok.mp tracked
      cases opener.bracket <;> rfl
    · next other =>
      apply Returns.pure
      intro next tracked
      rw [track] at tracked
      obtain ⟨opener, openers, inside, same, -⟩ := Nesting.close_eq_ok.mp tracked
      exact absurd (by simp [Nesting.innermost?, inside, same]) other
  · next unopened unclosed =>
    apply Returns.pure
    intro next tracked
    unfold Nesting.track at tracked
    split at tracked
    · next tag => exact absurd tag (unopened _)
    · next tag => exact absurd tag (unclosed _)
    · cases tracked
      rfl

end FragmentBounds.Checked
