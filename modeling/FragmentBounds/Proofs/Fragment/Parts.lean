import FragmentBounds.Proofs.Fragment.ExpressionEmbedding
import FragmentBounds.Proofs.Fragment.HeaderEmbedding
import FragmentBounds.Proofs.Token.Extent

/-! The tokens that each machine has read when it gives its answer. They are
well formed and balanced, and the fragment covers them but for trivia. -/
namespace FragmentBounds

open Recognizer

/-- The tokens of a source, cut around those that a fragment was read from. -/
structure Parts (source : String) (before read back : List Token) : Prop where
  cut : tokens source = before ++ (read ++ back)
  sound : ∀ token ∈ read, token.tag.isMalformed = false
  balanced : Balanced (read.map Token.tag)

variable {source : String} {span : Span}

private theorem upcoming_of_settles {σ α : Type} {machine : Recognizer σ α} {last : σ} {gap : Gap}
    {back : List Token} {result : α}
    (settles : Settles machine source.utf8ByteSize last gap back (.ok result)) :
    (Upcoming source back source.utf8ByteSize ∧ machine.atEnd last source.utf8ByteSize = .ok result) ∨
      ∃ token pending, back = token :: pending ∧ token.isTrivia = false ∧
        Upcoming source back token.span.start ∧ machine.step last gap token = .ok (.done result) := by
  rcases settles_eq_ok settles with ⟨rfl, ended⟩ | ⟨token, pending, rfl, significant, -, stepped⟩
  · exact .inl ⟨.atEnd, ended⟩
  · exact .inr ⟨token, pending, rfl, significant, .token significant, stepped⟩

private theorem Parts.concat {before front pending : List Token} {final : Token}
    (parts : Parts source before front (final :: pending))
    (sound : final.tag.isMalformed = false) (plain : final.tag.isBracket = false) :
    Parts source before (front ++ [final]) pending where
  cut := by simpa using parts.cut
  sound := by
    intro token member
    rcases List.mem_append.mp member with member | member
    · exact parts.sound token member
    · obtain rfl := List.mem_singleton.mp member
      exact sound
  balanced := by
    rw [List.map_append]
    exact parts.balanced.append (.plain plain .nil)

namespace Arguments

theorem parts (recognized : recognizer.recognize source = .ok span) :
    ∃ read back offset, Parts source [] read back ∧ Upcoming source back offset ∧
      span = (hull none read).getD (.point offset) := by
  obtain ⟨-, front, back, last, gap, cut, reads, settles⟩ := recognize_eq_ok recognized
  have covers : last.fragment = hull none front := fragment_eq_hull reads
  have tracked : Tracked .empty front last.nesting := tracks.tracked reads
  rcases upcoming_of_settles settles with ⟨upcoming, ended⟩ | ⟨token, _, _, _, upcoming, stepped⟩
  · obtain ⟨topLevel, rfl⟩ := atEnd_ok ended
    refine ⟨front, back, _, ⟨cut, reads.wellFormed, tracked.balanced rfl topLevel⟩, upcoming, ?_⟩
    rw [State.span, covers]
  · obtain ⟨topLevel, -, rfl⟩ := step_done stepped
    refine ⟨front, back, _, ⟨cut, reads.wellFormed, tracked.balanced rfl topLevel⟩, upcoming, ?_⟩
    rw [State.span, covers]

end Arguments

namespace Label

theorem keyword_of_reads {last : State} {gap lastGap : Gap} {front : List Token}
    (reads : Reads recognizer .keyword gap front last lastGap) :
    last = .keyword ∨ ∃ before word more, front = before ++ word :: more ∧
      (∀ token ∈ before, token.isTrivia) ∧ word.isTrivia = false ∧
      (last = .colon word.span ∨ ∃ clause, last = .clause clause ∧ clause.keyword = word.span) := by
  induction front generalizing gap with
  | nil =>
    cases reads
    exact .inl rfl
  | cons token front ih =>
    cases reads with
    | trivia trivia more =>
      rcases ih more with same | ⟨before, word, rest, rfl, all, kept⟩
      · exact .inl same
      · exact .inr ⟨token :: before, word, rest, rfl, by simpa [trivia] using all, kept⟩
    | @step _ begun _ _ _ _ _ significant _ stepped more =>
      refine .inr ⟨[], token, front, rfl, by simp, significant, ?_⟩
      apply more.invariant (P := fun state => state = .colon token.span ∨
        ∃ clause, state = .clause clause ∧ clause.keyword = token.span)
      · rcases step_more stepped with ⟨-, -, rfl⟩ | ⟨-, -, rfl⟩ | ⟨_, _, none, -⟩
        · exact .inl rfl
        · exact .inr ⟨_, rfl, rfl⟩
        · cases none
      · intro state gap token next _ kept stepped
        rcases step_more stepped with ⟨rfl, -⟩ | ⟨rfl, -⟩ | ⟨clause, nesting, rfl, -, rfl⟩
        · simp at kept
        · simp at kept
        · rcases kept with none | ⟨_, same, keyword⟩
          · cases none
          · cases same
            exact .inr ⟨_, rfl, keyword⟩

theorem parts (recognized : recognizer.recognize source = .ok span) :
    ∃ read back, Parts source [] read back ∧ hull none read = some span := by
  obtain ⟨-, front, back, last, gap, cut, reads, settles⟩ := recognize_eq_ok recognized
  rcases settles_eq_ok settles with ⟨rfl, ended⟩ | ⟨colon, pending, rfl, visible, sound, stepped⟩
  · exact absurd ended (atEnd_ne_ok last _ span)
  obtain ⟨tag, ends⟩ := step_done stepped
  have topLevel : last.nesting.isTopLevel := by
    rcases ends with ⟨_, rfl, -⟩ | ⟨_, rfl, topLevel, -⟩
    · rfl
    · exact topLevel
  have tracked : Tracked .empty front last.nesting := tracks.tracked reads
  have taken : Parts source [] front (colon :: pending) :=
    ⟨cut, reads.wellFormed, tracked.balanced rfl topLevel⟩
  refine ⟨front ++ [colon], pending, taken.concat sound (by rw [tag]; rfl), ?_⟩
  rcases keyword_of_reads reads with rfl | ⟨before, word, more, rfl, trivia, significant, kept⟩
  · rcases ends with ⟨_, none, -⟩ | ⟨_, none, -⟩ <;> cases none
  have merged : span = word.span.merge colon.span := by
    rcases ends with ⟨_, rfl, rfl⟩ | ⟨_, rfl, -, -, rfl⟩ <;>
      rcases kept with same | ⟨_, same, keyword⟩ <;> cases same
    · rfl
    · rw [keyword]
  have laid := laid_tokens source
  have shape : before ++ word :: more ++ colon :: pending =
      before ++ (word :: (more ++ [colon]) ++ pending) := by simp
  rw [cut, shape, laid_append] at laid
  obtain ⟨start, -, laid⟩ := laid
  obtain ⟨stop, laid, -⟩ := laid_append.mp laid
  rw [List.append_assoc, hull_append, hull_trivia none trivia, List.cons_append,
    hull_ends laid significant visible, merged]

end Label

namespace Header

theorem parts {keyword : Keyword} (recognized : (recognizer keyword).recognize source = .ok span) :
    ∃ before word read back offset, (∀ token ∈ before, token.isTrivia) ∧ word.isTrivia = false ∧
      Parts source (before ++ [word]) read back ∧ Upcoming source back offset ∧
      span = (hull none read).getD (.point offset) ∧ (keyword = .kwIf → hull none read = some span) := by
  obtain ⟨-, front, back, last, gap, cut, reads, settles⟩ := recognize_eq_ok recognized
  rcases upcoming_of_settles settles with ⟨-, ended⟩ | ⟨brace, pending, rfl, -, upcoming, stepped⟩
  · exact absurd ended (atEnd_ne_ok keyword last _ span)
  rcases keyword_of_reads reads with ⟨rfl, -⟩ | ⟨before, word, more, rfl, trivia, visible, -, clause⟩
  · obtain ⟨-, same⟩ := step_keyword stepped
    cases same
  obtain ⟨final, rfl, covers⟩ := fragment_eq_hull clause
  obtain ⟨topLevel, -, -, finished⟩ := step_done stepped
  have tracked : Tracked .empty more final.nesting := tracks.tracked clause
  have parts : Parts source (before ++ [word]) more (brace :: pending) :=
    ⟨by simp [cut], clause.wellFormed, tracked.balanced rfl topLevel⟩
  rw [Clause.start] at covers
  refine ⟨before, word, more, _, _, trivia, visible, parts, upcoming, ?_⟩
  rcases finish_eq_ok.mp finished with covered | ⟨none, other, rfl⟩
  · rw [covers] at covered
    exact ⟨by rw [covered]; rfl, fun _ => covered⟩
  · rw [covers] at none
    exact ⟨by rw [none]; rfl, fun same => absurd same other⟩

end Header

namespace Expression

theorem parts (recognized : recognizer.recognize source = .ok span) :
    ∃ read back, Parts source [] read back ∧ hull none read = some span := by
  obtain ⟨-, front, back, last, gap, cut, reads, settles⟩ := recognize_eq_ok recognized
  have covers : last.fragment = hull none front := fragment_eq_hull reads
  have tracked : Tracked .empty front last.nesting := tracks.tracked reads
  obtain ⟨topLevel, ends⟩ := ends_of_settles reads settles
  have taken : Parts source [] front back :=
    ⟨cut, reads.wellFormed, tracked.balanced rfl topLevel⟩
  rcases ends with ⟨-, covered⟩ | ⟨mark, pending, rfl, significant, sound, finished, covered, -⟩
  · exact ⟨front, back, taken, covers.symm.trans covered⟩
  · have plain : mark.tag.isBracket = false := by rw [Phase.tag_of_finish finished]; rfl
    refine ⟨front ++ [mark], pending, taken.concat sound plain, ?_⟩
    rw [hull_append, ← covers, hull_cons_significant _ _ significant]
    exact covered

end Expression

end FragmentBounds
