import FragmentBounds.Proofs.Recognizer.Reading
import FragmentBounds.Proofs.Recognizer.Alignment

/-! Two runs over tokens that belong together. If a machine takes matching
tokens from related states to related states, its runs agree as well. -/
namespace FragmentBounds

inductive Step.Matches {σ α : Type} (S : σ → σ → Prop) (R : α → α → Prop) :
    Step σ α → Step σ α → Prop
  | more {left right : σ} (related : S left right) : Matches S R (.more left) (.more right)
  | done {left right : α} (related : R left right) : Matches S R (.done left) (.done right)

/-- The same token but for where it lies, with an end that belongs to the other. -/
structure Token.Aligned (alignment : Alignment) (left right : Token) : Prop
    extends Token.Matches alignment left right where
  stop : alignment.stops left.span.stop right.span.stop

def Tag.endsFragment (tag : Tag) : Prop := tag = .colon ∨ tag = .ellipsis

namespace Recognizer

variable {σ α : Type}

/-- The machine does the same with tokens that match, whatever their offsets.
A token that the fragment does not end with may end where it likes, if the
states that it leads to are compared as loosely. -/
structure Respects (machine : Recognizer σ α) (S : Alignment → σ → σ → Prop)
    (R : Alignment → α → α → Prop) : Prop where
  step {alignment wider : Alignment} {state also : σ} (gap : Gap) {token other : Token}
    (within : alignment.Within wider) (same : S alignment state also)
    (matched : token.Matches alignment other) (stop : wider.stops token.span.stop other.span.stop)
    (ending : token.tag.endsFragment → alignment.stops token.span.stop other.span.stop) :
    Agree alignment.starts (Step.Matches (S wider) (R alignment)) (machine.step state gap token)
      (machine.step also gap other)
  atEnd {alignment : Alignment} {state also : σ} {size other : Nat}
    (same : S alignment state also) (aligned : alignment.starts size other) :
    Agree alignment.starts (R alignment) (machine.atEnd state size) (machine.atEnd also other)

variable {machine : Recognizer σ α} {S : Alignment → σ → σ → Prop} {R : Alignment → α → α → Prop}
  {alignment : Alignment}

theorem Respects.step_aligned (respects : machine.Respects S R) {state also : σ} (gap : Gap)
    {token other : Token} (same : S alignment state also) (aligned : token.Aligned alignment other) :
    Agree alignment.starts (Step.Matches (S alignment) (R alignment)) (machine.step state gap token)
      (machine.step also gap other) :=
  respects.step gap alignment.within_self same aligned.toMatches aligned.stop fun _ => aligned.stop

theorem Respects.run_append (respects : machine.Respects S R) {size other : Nat}
    {front moved back rest : List Token} {state also : σ} {gap : Gap}
    (aligned : List.Forall₂ (Token.Aligned alignment) front moved) (same : S alignment state also)
    (next : ∀ last final lastGap, S alignment last final →
      Agree alignment.starts (R alignment) (machine.run size last lastGap back)
        (machine.run other final lastGap rest)) :
    Agree alignment.starts (R alignment) (machine.run size state gap (front ++ back))
      (machine.run other also gap (moved ++ rest)) := by
  induction aligned generalizing state also gap with
  | nil => exact next state also gap same
  | @cons token copy front moved first _ ih =>
    rw [List.cons_append, List.cons_append]
    cases trivia : token.isTrivia with
    | true =>
      have extended : gap.extend copy = gap.extend token := by
        rw [Gap.extend, Gap.extend, first.breaksLine_eq]
      rw [run_trivia _ _ _ _ _ trivia, run_trivia _ _ _ _ _ (first.isTrivia_eq.trans trivia),
        extended]
      exact ih same
    | false =>
      cases malformed : token.tag.isMalformed with
      | true =>
        obtain ⟨kind, tag⟩ := Tag.isMalformed_iff.mp malformed
        rw [run_malformed _ _ _ _ _ tag, run_malformed _ _ _ _ _ (first.tag.trans tag)]
        exact .error (.malformed kind first.start)
      | false =>
        rw [run_significant _ _ _ _ _ trivia malformed,
          run_significant _ _ _ _ _ (first.isTrivia_eq.trans trivia) (by rw [first.tag]; exact malformed)]
        apply (respects.step_aligned gap same first).bind
        rintro left right (related | related)
        · exact ih related
        · exact .ok related

/-- Runs over sources whose tokens match one by one agree. -/
theorem Respects.run (respects : machine.Respects S R) {size other : Nat}
    {front moved : List Token} {state also : σ} (gap : Gap)
    (aligned : List.Forall₂ (Token.Aligned alignment) front moved) (same : S alignment state also)
    (ends : alignment.starts size other) :
    Agree alignment.starts (R alignment) (machine.run size state gap front)
      (machine.run other also gap moved) := by
  rw [← List.append_nil front, ← List.append_nil moved]
  exact respects.run_append aligned same fun _ _ _ related => respects.atEnd related ends

theorem Respects.reads (respects : machine.Respects S R) {front moved : List Token}
    {state last also : σ} {gap lastGap : Gap}
    (reads : Reads machine state gap front last lastGap)
    (aligned : List.Forall₂ (Token.Aligned alignment) front moved) (same : S alignment state also) :
    ∃ final, Reads machine also gap moved final lastGap ∧ S alignment last final := by
  induction reads generalizing also moved with
  | nil =>
    cases aligned
    exact ⟨also, .nil also _, same⟩
  | @trivia _ _ gap _ token _ trivia _ ih =>
    cases aligned with
    | @cons _ copy _ _ first more =>
      obtain ⟨final, reads, related⟩ := ih more same
      refine ⟨final, .trivia (first.isTrivia_eq.trans trivia) ?_, related⟩
      rwa [Gap.extend, first.breaksLine_eq]
  | @step _ _ _ gap _ token _ significant wellFormed stepped _ ih =>
    cases aligned with
    | @cons _ copy _ _ first more =>
      have agreed := respects.step_aligned gap same first
      rw [stepped] at agreed
      obtain ⟨outcome, taken, related⟩ := agreed.exists_ok
      cases related with
      | more related =>
        obtain ⟨final, reads, related⟩ := ih more related
        refine ⟨final, .step (first.isTrivia_eq.trans significant) ?_ taken reads, related⟩
        rw [first.tag]
        exact wellFormed

end Recognizer

end FragmentBounds
