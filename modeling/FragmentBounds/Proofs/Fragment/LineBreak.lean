import FragmentBounds.Proofs.Fragment.ExpressionEmbedding
import FragmentBounds.Proofs.Token.Extent

/-! What follows an expression on the next line. A line break ends it, unless
the next token is malformed, for that is found out first, or goes on with a
type, in which line breaks do not count. -/
namespace FragmentBounds

open Recognizer

namespace Expression

/-- The phase in which a text leaves the expression that it is. There is none
if the text holds more than the expression, or a spread mark has ended it. -/
def phaseAfter? (text : String) : Option Phase :=
  (recognizer.after? .start .closed (tokens text)).map State.phase

theorem stop_le_of_run {size : Nat} {state : State} {gap : Gap} {tokens : List Token}
    {inner span : Span} (covers : state.fragment = some inner)
    (found : recognizer.run size state gap tokens = .ok span) : inner.stop ≤ span.stop := by
  obtain ⟨front, back, last, lastGap, -, reads, settles⟩ :=
    reads_settles recognizer size state gap tokens
  rw [found] at settles
  have kept : ∃ outer, last.fragment = some outer ∧ inner.stop ≤ outer.stop := by
    refine reads.invariant (P := fun state => ∃ outer, state.fragment = some outer ∧
      inner.stop ≤ outer.stop) ⟨inner, covers, Nat.le_refl _⟩ ?_
    rintro state gap token next - ⟨outer, covers, within⟩ stepped
    refine ⟨outer.merge token.span, ?_, Nat.le_trans within (Nat.le_max_left _ _)⟩
    rw [(step_more stepped).2.1, covers]
    rfl
  obtain ⟨outer, covers, within⟩ := kept
  have here (offset : Nat) : last.span offset = outer := by
    rw [State.span, covers]
    rfl
  rcases settles_eq_ok settles with ⟨-, ended⟩ | ⟨token, _, -, -, -, stepped⟩
  · obtain ⟨-, -, rfl⟩ := atEnd_ok ended
    rwa [here]
  · obtain ⟨-, ⟨-, rfl⟩ | ⟨-, extended⟩⟩ := step_done stepped
    · rwa [here]
    · rw [covers] at extended
      cases extended
      exact Nat.le_trans within (Nat.le_max_left _ _)

theorem run_ne_of_extendsType {size : Nat} {state : State} {gap : Gap} {token : Token}
    {pending : List Token} {span : Span} {inSignature : Bool}
    (phase : state.phase = .typeLiteral inSignature) (covers : state.fragment = some span)
    (significant : token.isTrivia = false) (wellFormed : token.tag.isMalformed = false)
    (extended : Phase.extendsType token) (beyond : span.stop < token.span.stop) :
    recognizer.run size state gap (token :: pending) ≠ .ok span := by
  intro found
  obtain ⟨next, taken⟩ := Phase.settle_of_extendsType extended inSignature state.previous gap
  rw [← phase] at taken
  rw [run_significant _ _ _ _ _ significant wellFormed] at found
  obtain ⟨outcome, stepped, found⟩ := bind_eq_ok.mp found
  cases outcome with
  | done result =>
    obtain ⟨-, ⟨stopped, -⟩ | ⟨finished, -⟩⟩ := step_done stepped
    · simp [taken] at stopped
    · simp [taken] at finished
  | more after =>
    have wider : after.fragment = some (span.merge token.span) := by
      rw [(step_more stepped).2.1, covers]
      rfl
    have within := stop_le_of_run wider found
    simp only [Span.merge] at within
    omega

theorem run_broken_token {size : Nat} {state : State} {gap : Gap} {token : Token}
    {pending : List Token} {span : Span} (topLevel : state.nesting.isTopLevel)
    (complete : state.phase.isComplete) (covers : state.fragment = some span)
    (broken : gap.broken) (significant : token.isTrivia = false)
    (beyond : span.stop < token.span.stop) :
    recognizer.run size state gap (token :: pending) = .ok span ↔
      token.tag.isMalformed = false ∧ ∀ inSignature, state.phase = .typeLiteral inSignature →
        Phase.extendsType token = false := by
  constructor
  · intro found
    cases malformed : token.tag.isMalformed with
    | true =>
      obtain ⟨kind, tag⟩ := Tag.isMalformed_iff.mp malformed
      rw [run_malformed _ _ _ _ _ tag] at found
      cases found
    | false =>
      refine ⟨rfl, fun inSignature phase => Bool.eq_false_iff.mpr fun extended => ?_⟩
      exact run_ne_of_extendsType phase covers significant malformed extended beyond found
  · rintro ⟨sound, ended⟩
    have stopped := Phase.stop_of_broken complete state.previous broken ended
    exact (Settles.done significant sound (step_of_stop topLevel covers stopped)).run_eq

/-- Behind a line break, an expression that may be complete ends in front of the
next token that is well-formed and does not go on with a type. -/
theorem run_broken {size place : Nat} (other : Nat) {state : State} {gap : Gap} {span : Span}
    {pending : List Lexeme} (topLevel : state.nesting.isTopLevel)
    (complete : state.phase.isComplete) (covers : state.fragment = some span)
    (broken : gap.broken) (behind : span.stop ≤ place)
    (full : ∀ lexeme ∈ pending, lexeme.text ≠ []) :
    recognizer.run size state gap (tokensFrom place pending) = .ok span ↔
      ∀ token ∈ ((tokensFrom other pending).filter fun token => !token.isTrivia).head?,
        token.tag.isMalformed = false ∧ ∀ inSignature, state.phase = .typeLiteral inSignature →
          Phase.extendsType token = false := by
  induction pending generalizing place other gap with
  | nil => simpa [tokensFrom] using run_of_ends topLevel complete covers .atEnd
  | cons lexeme pending ih =>
    have rest : ∀ lexeme ∈ pending, lexeme.text ≠ [] := fun other member =>
      full other (List.mem_cons_of_mem _ member)
    rw [tokensFrom, tokensFrom]
    cases trivia : lexeme.tag.isTrivia with
    | true =>
      have skipped : (Token.ofLexeme place lexeme).isTrivia := trivia
      have ignored : (Token.ofLexeme other lexeme).isTrivia := trivia
      rw [run_trivia _ _ _ _ _ skipped, List.filter_cons_of_neg (by simp [ignored])]
      exact ih _ (by simp [Gap.extend, broken]) (by omega) rest
    | false =>
      have visible : (Token.ofLexeme place lexeme).isTrivia = false := trivia
      have first : (Token.ofLexeme other lexeme).isTrivia = false := trivia
      rw [List.filter_cons_of_pos (by simp [first]), List.head?_cons]
      have nonempty : lexeme.byteSize ≠ 0 := fun none =>
        full lexeme (by simp) (Text.byteSize_eq_zero.mp none)
      have beyond : span.stop < (Token.ofLexeme place lexeme).span.stop := by
        simp only [Token.ofLexeme]
        omega
      refine (run_broken_token topLevel complete covers broken visible beyond).trans ⟨?_, ?_⟩
      · rintro ends token here
        obtain rfl := Option.some.inj here
        exact ends
      · exact fun ends => ends (.ofLexeme other lexeme) rfl

theorem run_line_break (size : Nat) {front pending : List Lexeme} {last : State} {lastGap : Gap}
    {span : Span} (reads : Reads recognizer .start .closed (tokensFrom 0 front) last lastGap)
    (topLevel : last.nesting.isTopLevel) (complete : last.phase.isComplete)
    (covers : last.fragment = some span)
    (behind : span.stop ≤ Text.byteSize (front.flatMap Lexeme.text))
    (full : ∀ lexeme ∈ pending, lexeme.text ≠ []) :
    recognizer.run size .start .closed
        (tokensFrom 0 (front ++ ⟨.trivia .newline, ['\n']⟩ :: pending)) = .ok span ↔
      ∀ token ∈ ((tokensFrom 0 pending).filter fun token => !token.isTrivia).head?,
        token.tag.isMalformed = false ∧ ∀ inSignature, last.phase = .typeLiteral inSignature →
          Phase.extendsType token = false := by
  let feed := Token.ofLexeme (0 + Text.byteSize (front.flatMap Lexeme.text))
    ⟨.trivia .newline, ['\n']⟩
  have broken : (lastGap.extend feed).broken := by
    simp [Gap.extend, Token.breaksLine, feed, Token.ofLexeme]
  rw [tokensFrom_append, tokensFrom, reads.run_append, run_trivia _ _ _ _ _ rfl]
  exact run_broken 0 topLevel complete covers broken (by omega) full

theorem run_mark {front : List Lexeme} {last : State} {lastGap : Gap} {mark : Lexeme}
    {span : Span} (reads : Reads recognizer .start .closed (tokensFrom 0 front) last lastGap)
    (ellipsis : mark.tag = .ellipsis)
    (stepped : recognizer.step last lastGap
      (.ofLexeme (Text.byteSize (front.flatMap Lexeme.text)) mark) = .ok (.done span)) :
    recognizer.after? .start .closed (tokensFrom 0 (front ++ [mark])) = none ∧
      ∀ size pending, recognizer.run size .start .closed (tokensFrom 0 (front ++ mark :: pending)) =
        .ok span := by
  let token := Token.ofLexeme (Text.byteSize (front.flatMap Lexeme.text)) mark
  have tag : token.tag = .ellipsis := ellipsis
  have visible : token.isTrivia = false := Token.isTrivia_of_tag tag rfl
  have sound : token.tag.isMalformed = false := by rw [tag]; rfl
  constructor
  · rw [tokensFrom_append, Nat.zero_add, reads.after?_append]
    exact after?_of_done visible sound stepped
  · intro size pending
    rw [tokensFrom_append, Nat.zero_add, reads.run_append]
    exact (Settles.done visible sound stepped).run_eq

end Expression

/-- An expression followed by a line break ends there, unless the next line
starts with a malformed token, or the expression is a type that the next line
goes on with. -/
theorem extract_expression_line_break {source front : String} {span : Span}
    (extracted : Construct.expression.extract source = .ok span)
    (covers : (Span.mk 0 span.stop).get? source = some front) (rest : String)
    (fits : (front ++ "\n" ++ rest).utf8ByteSize ≤ maxOffset) :
    Construct.expression.extract (front ++ "\n" ++ rest) = .ok span ↔
      ∀ phase, Expression.phaseAfter? front = some phase →
        ∀ token ∈ (significantTokens rest).head?, token.tag.isMalformed = false ∧
          ∀ inSignature, phase = .typeLiteral inSignature →
            Expression.Phase.extendsType token = false := by
  obtain ⟨before, inside, behind, cut, left, trimmed, sound, rfl, whole⟩ :=
    Expression.whole_of_recognize extracted
  have content : lexemes front.toList = before ++ inside := by
    have parts : lexemes source.toList = [] ++ (before ++ inside) ++ behind := by simp [cut]
    obtain ⟨text, covered, content, -⟩ := get?_of_parts parts
    have same : some front = some text := covers.symm.trans (by simpa using covered)
    rwa [Option.some.inj same]
  have split : lexemes (front ++ "\n" ++ rest).toList =
      before ++ inside ++ ⟨.trivia .newline, ['\n']⟩ :: lexemes rest.toList := by
    have shape : (front ++ "\n" ++ rest).toList = front.toList ++ '\n' :: rest.toList := by simp
    rw [shape, lexemes_line_break _ rest.toList, content]
    intro final member
    rw [content, List.getLast?_append_of_ne_nil _ trimmed.nonempty] at member
    exact ⟨trimmed.last final member, sound final (List.mem_of_getLast? member)⟩
  have recognized : Construct.expression.extract (front ++ "\n" ++ rest) =
      Expression.recognizer.run (front ++ "\n" ++ rest).utf8ByteSize .start .closed
        (tokensFrom 0 (before ++ inside ++ ⟨.trivia .newline, ['\n']⟩ :: lexemes rest.toList)) := by
    rw [← split]
    exact recognize_of_fits _ fits
  have read : tokens front = tokensFrom 0 (before ++ inside) := by rw [tokens, content]
  rw [recognized, Expression.phaseAfter?, read]
  rcases whole.reads left trimmed with
    ⟨last, _, reads, topLevel, complete, covers⟩ | ⟨body, mark, _, _, rfl, ellipsis, reads, stepped⟩
  · have after := reads.after?_append []
    rw [List.append_nil] at after
    have full : ∀ lexeme ∈ lexemes rest.toList, lexeme.text ≠ [] := fun lexeme =>
      text_ne_nil_of_mem_lexemes
    have ends := Expression.run_line_break (front ++ "\n" ++ rest).utf8ByteSize reads topLevel
      complete covers (by simp) full
    rw [ends, after]
    constructor
    · rintro ends phase same
      obtain rfl := Option.some.inj same
      exact ends
    · exact fun ends => ends last.phase rfl
  · obtain ⟨nothing, ended⟩ := Expression.run_mark reads ellipsis stepped
    have shape : before ++ (body ++ [mark]) ++ ⟨.trivia .newline, ['\n']⟩ :: lexemes rest.toList =
        before ++ body ++ mark :: ⟨.trivia .newline, ['\n']⟩ :: lexemes rest.toList := by simp
    rw [shape, ended, ← List.append_assoc before, nothing]
    refine ⟨fun _ phase same => ?_, fun _ => rfl⟩
    cases same

theorem extract_expression_line_break_type :
    Construct.expression.extract "[]int\n\x7d" = .ok ⟨0, 5⟩ ∧
      Construct.expression.extract ("[]int" ++ "\n" ++ "<div> '") = .ok ⟨0, 5⟩ := by
  have extracted : Construct.expression.extract "[]int\n\x7d" = .ok ⟨0, 5⟩ := by decide +kernel
  have covers : (Span.mk 0 5).get? "[]int\n\x7d" = some "[]int" := by decide +kernel
  have ends := extract_expression_line_break extracted covers "<div> '" (by decide +kernel)
  refine ⟨extracted, ends.mpr fun phase _ token first => ?_⟩
  have next : (significantTokens "<div> '").head? = some ⟨.operator .less, ⟨0, 1⟩, "<"⟩ := by
    decide +kernel
  rw [next] at first
  obtain rfl := Option.some.inj first
  exact ⟨rfl, fun _ _ => rfl⟩

theorem extract_expression_line_break_fails :
    Construct.expression.extract "x\ny" = .ok ⟨0, 1⟩ ∧
      Construct.expression.extract ("x" ++ "\n" ++ "@other()") =
        .error (.malformed .invalidCharacter 2) ∧
      Construct.expression.extract "[]int\n<div>" = .ok ⟨0, 5⟩ ∧
      Construct.expression.extract ("[]int" ++ "\n" ++ "foo") = .ok ⟨0, 9⟩ := by
  decide +kernel

end FragmentBounds
