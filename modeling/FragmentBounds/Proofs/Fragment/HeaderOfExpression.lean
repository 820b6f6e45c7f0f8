import FragmentBounds.Proofs.Fragment.LiteralTracking

/-! Conditions. An expression in front of a brace is the header of an `if` as
well, if the keyword is put before it. -/
namespace FragmentBounds

open Recognizer

namespace Expression

/-- The tokens that are taken in while an expression is extracted, each with the
state that it meets. -/
def takenIn (source : String) : List (State × Token) :=
  recognizer.taken recognizer.start .closed (tokens source)

theorem afterOperand_of_brace {size : Nat} {state : State} {gap : Gap} {brace : Token}
    {pending : List Token} {span : Span} (complete : state.phase.isComplete)
    (covers : state.fragment = some span) (tag : brace.tag = .opening .brace)
    (beyond : span.stop < brace.span.stop)
    (found : recognizer.run size state gap (brace :: pending) = .ok span) :
    state.phase = .afterOperand := by
  cases phase : state.phase with
  | afterOperand => rfl
  | typeLiteral inSignature =>
    have extended : Phase.extendsType brace := by simp [Phase.extendsType, tag]
    have significant : brace.isTrivia = false := Token.isTrivia_of_tag tag rfl
    have sound : brace.tag.isMalformed = false := by rw [tag]; rfl
    exact absurd found (run_ne_of_extendsType phase covers significant sound extended beyond)
  | operand | selector | members inSignature => simp [phase, Phase.isComplete] at complete

theorem reads_ellipsis (keyword : Keyword) {clause : Header.Clause} (gap : Gap) (mark : Token)
    (topLevel : clause.nesting.isTopLevel) (tag : mark.tag = .ellipsis) :
    ∃ after, Reads (Header.recognizer keyword) (.clause clause) gap [mark] (.clause after) .closed ∧
      after.nesting.isTopLevel ∧ after.body = none := by
  have plain : mark.tag.isBracket = false := by rw [tag]; rfl
  have significant : mark.isTrivia = false := Token.isTrivia_of_tag tag rfl
  have sound : mark.tag.isMalformed = false := by rw [tag]; rfl
  have observed : Header.observe clause.body clause.afterOperand mark = none := by
    simp only [Header.observe, tag]
  let after : Header.Clause :=
    ⟨clause.nesting, none, extendFragment clause.fragment mark, Header.endsOperand mark⟩
  have stepped : (Header.recognizer keyword).step (.clause clause) gap mark =
      .ok (.more (.clause after)) := by
    change clause.step keyword mark = _
    rw [Header.Clause.step, if_pos topLevel, if_neg (by simp [tag]), observed]
    exact Header.consume_eq.mpr ⟨clause.nesting, clause.nesting.track_plain plain, rfl⟩
  exact ⟨after, .step significant sound stepped (.nil _ _), topLevel, rfl⟩

theorem reads_header {source : String} {front back : List Lexeme} {last : State} {lastGap : Gap}
    (shared : ∀ taken ∈ takenIn source, Shared taken.1 taken.2)
    (cut : lexemes source.toList = front ++ back)
    (reads : Reads recognizer .start .closed (tokensFrom 0 front) last lastGap)
    (keyword : Keyword) :
    ∃ after, Reads (Header.recognizer keyword) (.clause .start) .closed (tokensFrom 0 front)
        (.clause after) lastGap ∧ InStep last after := by
  refine InStep.start.reads reads (fun taken member => shared taken ?_) keyword
  rw [takenIn, tokens, cut, tokensFrom_append]
  exact (reads.taken_append _).symm ▸ List.mem_append_left _ member

theorem Whole.header {source : String} {before inside middle behind : List Lexeme} {brace : Lexeme}
    {span : Span} (whole : Whole (Text.byteSize (before.flatMap Lexeme.text)) inside span)
    (left : ∀ lexeme ∈ before, lexeme.tag.isTrivia) (trimmed : Trimmed inside)
    (recognized : recognizer.recognize source = .ok span)
    (shared : ∀ taken ∈ takenIn source, Shared taken.1 taken.2)
    (cut : lexemes source.toList = before ++ inside ++ (middle ++ brace :: behind))
    (trivia : ∀ lexeme ∈ middle, lexeme.tag.isTrivia) (tag : brace.tag = .opening .brace)
    (place : span.stop = Text.byteSize ((before ++ inside).flatMap Lexeme.text))
    (keyword : Keyword) :
    Header.Whole keyword (Text.byteSize (before.flatMap Lexeme.text)) inside := by
  suffices entered : ∃ after lastGap,
      Reads (Header.recognizer keyword) (.clause .start) .closed (tokensFrom 0 (before ++ inside))
        (.clause after) lastGap ∧ after.nesting.isTopLevel ∧ after.body = none by
    obtain ⟨after, lastGap, entered, ends⟩ := entered
    obtain ⟨begun, entered⟩ := entered.after_trivia left
    rw [Nat.zero_add] at entered
    exact ⟨begun, after, lastGap, entered, ends⟩
  rcases whole.reads left trimmed with
    ⟨last, lastGap, reads, topLevel, complete, covers⟩ |
      ⟨body, mark, last, lastGap, rfl, ellipsis, reads, stepped⟩
  · obtain ⟨after, entered, inStep⟩ := reads_header shared cut reads keyword
    have outside : after.nesting.isTopLevel := by rw [inStep.nesting, topLevel]
    -- A type would have taken the brace in, so an operand is what ends here.
    suffices operand : last.phase = .afterOperand by
      exact ⟨after, lastGap, entered, outside, by rw [inStep.body, operand]; rfl⟩
    obtain ⟨gap, skipped⟩ := reads_trivia recognizer last lastGap
      (@isTrivia_tokensFrom (Text.byteSize ((before ++ inside).flatMap Lexeme.text)) _ trivia)
    obtain ⟨fits, -⟩ := recognize_eq_ok recognized
    rw [recognize_of_fits _ fits, tokens, cut, tokensFrom_append, tokensFrom_append _ middle,
      Nat.zero_add, tokensFrom] at recognized
    rw [recognizer] at reads skipped recognized
    rw [reads.run_append, skipped.run_append] at recognized
    have positive : brace.byteSize ≠ 0 := fun none =>
      text_ne_nil_of_mem_lexemes (by rw [cut]; simp) (Text.byteSize_eq_zero.mp none)
    refine afterOperand_of_brace complete covers tag ?_ recognized
    simp only [Token.ofLexeme]
    omega
  -- A header takes a spread mark in and still wants its brace.
  · have parts : lexemes source.toList = before ++ body ++ (mark :: (middle ++ brace :: behind)) := by
      simp [cut]
    obtain ⟨after, entered, inStep⟩ := reads_header shared parts reads keyword
    have outside : after.nesting.isTopLevel := by rw [inStep.nesting, (step_done stepped).1]
    obtain ⟨final, marked, ends⟩ := reads_ellipsis keyword lastGap (.ofLexeme _ mark) outside ellipsis
    refine ⟨final, .closed, ?_, ends⟩
    rw [← List.append_assoc, tokensFrom_append]
    exact entered.append marked

end Expression

/-- An expression in front of a brace is the condition of an `if`, unless a brace
of it opens the literal of a bare type, or a function type is part of another
type. -/
theorem extract_header_of_expression {source : String} {span : Span}
    (extracted : Construct.expression.extract source = .ok span)
    (braced : (nextSignificant? source span.stop).map Token.tag = some (.opening .brace))
    (typed : ∀ taken ∈ Expression.takenIn source, taken.1.nesting.isTopLevel →
      taken.1.phase = .afterOperand → taken.2.tag ≠ .opening .brace)
    (nominal : ∀ taken ∈ Expression.takenIn source, taken.1.nesting.isTopLevel →
      taken.1.phase = .typeLiteral false → taken.2.keyword? ≠ some .kwFunc)
    (fits : ("if " ++ source).utf8ByteSize ≤ maxOffset) :
    Construct.ifHeader.extract ("if " ++ source) = .ok ⟨span.start + 3, span.stop + 3⟩ := by
  obtain ⟨before, inside, behind, cut, left, trimmed, -, place, whole⟩ :=
    Expression.whole_of_recognize extracted
  have stop : span.stop = Text.byteSize ((before ++ inside).flatMap Lexeme.text) := by simp [place]
  rw [stop] at braced
  obtain ⟨middle, brace, rest, rfl, trivia, tag⟩ := lexemes_of_nextSignificant? cut braced
  have header := whole.header left trimmed extracted
    (fun taken member => ⟨typed taken member, nominal taken member⟩) cut trivia tag stop .kwIf
  have first : ∀ lexeme ∈ (inside ++ (middle ++ brace :: rest)).head?, lexeme.tag.isTrivia = false := by
    intro lexeme member
    exact trimmed.first lexeme (by simpa [List.head?_append_of_ne_nil _ trimmed.nonempty] using member)
  rw [List.append_assoc] at cut
  obtain ⟨leading, keyed, blank, wider⟩ := lexemes_keyword_space .kwIf cut left first
  have shape : ("if " ++ source).toList = Keyword.kwIf.spelling.toList ++ ' ' :: source.toList := by
    simp [Keyword.spelling]
  rw [← shape] at keyed
  have covered := hull_inside (Text.byteSize (before.flatMap Lexeme.text) + 3) trimmed
    fun lexeme member => text_ne_nil_of_mem_lexemes (by rw [cut]; simp [member])
  have begins : Text.byteSize (before.flatMap Lexeme.text) + 3 =
      Text.byteSize Keyword.kwIf.spelling.toList + Text.byteSize (leading.flatMap Lexeme.text) := by
    have size : Text.byteSize Keyword.kwIf.spelling.toList = 2 := by decide +kernel
    omega
  have found := header.recognize_eq fits keyed rfl blank trivia tag begins fun none =>
    absurd (none.symm.trans covered) (by simp)
  rw [covered] at found
  rw [place]
  refine found.trans ?_
  simp [Nat.add_right_comm]

theorem extract_header_of_expression_signature :
    Construct.expression.extract "func(a int) map[string]struct\x7b\x7d\x7bf\x7d\n\x7b" = .ok ⟨0, 34⟩ ∧
      Construct.ifHeader.extract
        ("if " ++ "func(a int) map[string]struct\x7b\x7d\x7bf\x7d\n\x7b") = .ok ⟨3, 37⟩ := by
  have extracted : Construct.expression.extract
      "func(a int) map[string]struct\x7b\x7d\x7bf\x7d\n\x7b" = .ok ⟨0, 34⟩ := by decide +kernel
  refine ⟨extracted, extract_header_of_expression extracted ?_ ?_ ?_ ?_⟩ <;> decide +kernel

theorem extract_header_of_expression_fails :
    Construct.expression.extract "[]func()\x7bf\x7d \x7b" = .ok ⟨0, 8⟩ ∧
      (nextSignificant? "[]func()\x7bf\x7d \x7b" 8).map Token.tag = some (.opening .brace) ∧
      (∀ taken ∈ Expression.takenIn "[]func()\x7bf\x7d \x7b", taken.1.nesting.isTopLevel →
        taken.1.phase = .afterOperand → taken.2.tag ≠ .opening .brace) ∧
      Construct.ifHeader.extract ("if " ++ "[]func()\x7bf\x7d \x7b") = .ok ⟨3, 14⟩ := by
  decide +kernel

end FragmentBounds
