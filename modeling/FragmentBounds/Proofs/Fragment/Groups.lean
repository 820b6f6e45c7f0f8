import FragmentBounds.Proofs.Fragment.ExpressionEmbedding
import FragmentBounds.Proofs.Fragment.HeaderEmbedding
import FragmentBounds.Proofs.Recognizer.Groups

/-! What stands between a bracket and the one that closes it has no part in
where a fragment ends: every machine forgets it with the closing bracket. -/
namespace FragmentBounds

open Recognizer

private theorem keyword?_of_group {opener : Token} {rest : List Token} {stop : Nat}
    (group : Group opener rest stop) : opener.keyword? = none := by
  obtain ⟨bracket, opens, -, -, -, -⟩ := group
  simp [Token.keyword?, opens]

private theorem fragment_group {alignment : Alignment} {opener : Token} {rest other : List Token}
    {stop also : Nat} {fragment : Option Span}
    (within : (Alignment.upTo opener.span.start).Within alignment)
    (stops : alignment.stops stop also) (group : Group opener rest stop)
    (changed : Group opener other also)
    (same : Option.Rel (Span.Matches (.upTo opener.span.start)) fragment fragment) :
    Option.Rel (Span.Matches alignment) (hull (extendFragment fragment opener) rest)
      (hull (extendFragment fragment opener) other) := by
  have before : ∀ span, fragment = some span →
      span.start ≤ opener.span.start ∧ span.stop ≤ opener.span.start := by
    rintro span rfl
    have inner := Option.rel_some_some.mp same
    exact ⟨inner.start.1, inner.stop.1⟩
  have start : alignment.starts ((fragment.map Span.start).getD opener.span.start)
      ((fragment.map Span.start).getD opener.span.start) := by
    apply within.starts
    refine ⟨?_, rfl⟩
    cases fragment with
    | none => exact Nat.le_refl _
    | some span => exact (before span rfl).1
  have covers {rest : List Token} {stop : Nat} (group : Group opener rest stop) :
      hull (extendFragment fragment opener) rest =
        some ⟨(fragment.map Span.start).getD opener.span.start, stop⟩ := by
    have visible := (Group.visible group).1
    obtain ⟨bracket, opens, closes, -, -, laid⟩ := group
    rw [← hull_cons_significant fragment _ visible]
    exact hull_group laid visible (Token.isTrivia_of_tag closes rfl) before
  rw [covers group, covers changed]
  exact .some ⟨start, stops⟩

namespace Arguments

theorem regroups : recognizer.Regroups State.Matches := by
  intro alignment state opened gap opener rest other stop also within stops same stepped group changed
  obtain ⟨entered, covers⟩ := step_more stepped
  have read {rest : List Token} {stop : Nat} (group : Group opener rest stop) :
      ∃ next, Reads recognizer opened .closed rest next .closed ∧ next.nesting = state.nesting := by
    obtain ⟨_, _, _, next, reads, -, -, nesting, -⟩ :=
      follows.reads_group (P := fun _ => True) (fun _ _ _ _ _ _ _ => trivial) group entered trivial
    exact ⟨next, reads, nesting⟩
  obtain ⟨next, first, outside⟩ := read group
  obtain ⟨final, second, restored⟩ := read changed
  refine ⟨next, final, first, second, ?_, ?_⟩
  · rw [outside, restored]
    exact same.nesting.mono within
  · rw [fragment_eq_hull first, fragment_eq_hull second, covers]
    exact fragment_group within stops group changed same.fragment

end Arguments

namespace Expression

theorem regroups : recognizer.Regroups State.Matches := by
  intro alignment state opened gap opener rest other stop also within stops same stepped group changed
  obtain ⟨entered, covers, -, -, -⟩ := step_more stepped
  -- Inside brackets the phase waits. It is the one that the opener has set.
  have keeps (before : State) (gap : Gap) (token : Token) (next : State)
      (nested : before.nesting.isTopLevel = false) (kept : before.phase = opened.phase)
      (stepped : recognizer.step before gap token = .ok (.more next)) : next.phase = opened.phase := by
    obtain ⟨-, -, -, -, inside⟩ := step_more stepped
    exact (inside nested).trans kept
  have read {rest : List Token} {stop : Nat} (group : Group opener rest stop) :
      ∃ next, Reads recognizer opened .closed rest next .closed ∧ next.nesting = state.nesting ∧
        next.phase = opened.phase ∧
        ∀ bracket, opener.tag = .opening bracket → next.previous = .closing bracket := by
    obtain ⟨_, _, closer, next, reads, closes, left, nesting, phase⟩ :=
      follows.reads_group (P := fun state => state.phase = opened.phase) keeps group entered rfl
    obtain ⟨-, -, previous, -, -⟩ := step_more left
    exact ⟨next, reads, nesting, phase, fun bracket tag => previous.trans (closes bracket tag)⟩
  obtain ⟨next, first, outside, phase, previous⟩ := read group
  obtain ⟨final, second, restored, alike, last⟩ := read changed
  obtain ⟨bracket, opens, -⟩ := id group
  refine ⟨next, final, first, second, alike.trans phase.symm, ?_, ?_, ?_⟩
  · rw [outside, restored]
    exact same.nesting.mono within
  · rw [fragment_eq_hull first, fragment_eq_hull second, covers]
    exact fragment_group within stops group changed same.fragment
  · rw [previous bracket opens, last bracket opens]

end Expression

namespace Label

theorem regroups : recognizer.Regroups State.Matches := by
  intro alignment state opened gap opener rest other stop also within stops same stepped group changed
  have unspelled := keyword?_of_group group
  rcases step_more stepped with ⟨-, spelled, -⟩ | ⟨-, spelled, -⟩ | ⟨clause, nesting, rfl, entered, rfl⟩
  · cases unspelled.symm.trans spelled
  · cases unspelled.symm.trans spelled
  · have keeps (before : State) (gap : Gap) (token : Token) (next : State)
        (nested : before.nesting.isTopLevel = false)
        (kept : ∃ nesting, before = .clause ⟨clause.keyword, nesting, false⟩)
        (stepped : recognizer.step before gap token = .ok (.more next)) :
        ∃ nesting, next = .clause ⟨clause.keyword, nesting, false⟩ := by
      obtain ⟨nesting, rfl⟩ := kept
      rcases step_more stepped with ⟨none, -⟩ | ⟨none, -⟩ | ⟨_, after, same, -, rfl⟩
      · cases none
      · cases none
      · cases same
        exact ⟨after, rfl⟩
    have read {rest : List Token} {stop : Nat} (group : Group opener rest stop) :
        Reads recognizer (.clause ⟨clause.keyword, nesting, false⟩) .closed rest
          (.clause ⟨clause.keyword, clause.nesting, false⟩) .closed := by
      obtain ⟨_, _, _, next, reads, -, -, restored, after, rfl⟩ :=
        follows.reads_group (P := fun state => ∃ nesting, state =
          .clause ⟨clause.keyword, nesting, false⟩) keeps group entered ⟨nesting, rfl⟩
      obtain rfl : after = clause.nesting := restored
      exact reads
    refine ⟨_, _, read group, read changed, ?_⟩
    cases same with
    | clause same => exact .clause ⟨same.keyword.mono within, same.nesting.mono within, rfl⟩

end Label

namespace Header

variable {keyword : Keyword}

theorem endsOperand_closing {token : Token} {bracket : Bracket}
    (tag : token.tag = .closing bracket) : endsOperand token = true := by
  simp [endsOperand, tag, Tag.closes?]

theorem regroups : (recognizer keyword).Regroups State.Matches := by
  intro alignment state opened gap opener rest other stop also within stops same stepped group changed
  have unspelled := keyword?_of_group group
  cases same with
  | keyword =>
    obtain ⟨spelled, -⟩ := step_keyword stepped
    cases unspelled.symm.trans spelled
  | @clause clause _ same =>
    obtain ⟨first, rfl, entered, covers, -, -⟩ := step_more stepped
    -- A brace that opens in the group is no body of the header.
    have keeps (before : State) (gap : Gap) (token : Token) (next : State)
        (nested : before.nesting.isTopLevel = false)
        (kept : ∃ after, before = .clause after ∧ after.body = first.body)
        (stepped : (recognizer keyword).step before gap token = .ok (.more next)) :
        ∃ after, next = .clause after ∧ after.body = first.body := by
      obtain ⟨after, rfl, body⟩ := kept
      obtain ⟨last, rfl, -, -, -, inside⟩ := step_more stepped
      exact ⟨last, rfl, (inside nested).trans body⟩
    have read {rest : List Token} {stop : Nat} (group : Group opener rest stop) :
        ∃ after, Reads (recognizer keyword) (.clause first) .closed rest (.clause after) .closed ∧
          after.nesting = clause.nesting ∧ after.body = first.body ∧ after.afterOperand = true ∧
          after.fragment = hull (extendFragment clause.fragment opener) rest := by
      obtain ⟨bracket, opens, -⟩ := id group
      obtain ⟨last, _, closer, next, reads, closes, left, restored, after, rfl, body⟩ :=
        follows.reads_group (P := fun state => ∃ after, state = .clause after ∧
          after.body = first.body) keeps group entered ⟨first, rfl, rfl⟩
      obtain ⟨_, same, hulled⟩ := fragment_eq_hull reads
      cases same
      have closing := closes bracket opens
      refine ⟨after, reads, restored, body, ?_, by rw [hulled, covers]⟩
      cases last with
      | keyword =>
        obtain ⟨spelled, -⟩ := step_keyword left
        simp [Token.keyword?, closing] at spelled
      | clause last =>
        obtain ⟨_, same, -, -, operand, -⟩ := step_more left
        cases same
        rw [operand, endsOperand_closing closing]
    obtain ⟨next, front, outside, body, operand, fragment⟩ := read group
    obtain ⟨final, back, restored, alike, ended, hulled⟩ := read changed
    refine ⟨_, _, front, back, .clause ⟨?_, alike.trans body.symm, ?_, ended.trans operand.symm⟩⟩
    · rw [outside, restored]
      exact same.nesting.mono within
    · rw [fragment, hulled]
      exact fragment_group within stops group changed same.fragment

end Header

end FragmentBounds
