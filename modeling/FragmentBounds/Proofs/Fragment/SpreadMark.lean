import FragmentBounds.Fragment.Spread
import FragmentBounds.Proofs.Checked.Bytes
import FragmentBounds.Proofs.Fragment.ExpressionEmbedding
import FragmentBounds.Proofs.Lexeme.Points
import FragmentBounds.Proofs.Recognizer.Significant

/-! Spread marks at the end of an expression. No expression ends with two points
that are not part of a spread mark, so that three points at its end are one; and
what comes before the mark is an expression without one. -/
namespace FragmentBounds

open Recognizer

namespace Spread

theorem blind : recognizer.Blind := fun _ _ _ _ => rfl

theorem run_eq (size : Nat) (last : Option Tag) (gap : Gap) {tokens : List Token}
    (visible : ∀ token ∈ tokens, token.isTrivia = false)
    (sound : ∀ token ∈ tokens, token.tag.isMalformed = false) :
    recognizer.run size last gap tokens =
      .ok ((tokens.getLast?.map Token.tag).or last == some .ellipsis) := by
  induction tokens generalizing last gap with
  | nil => rfl
  | cons token tokens ih =>
    rw [run_significant _ _ _ _ _ (visible token (by simp)) (sound token (by simp))]
    have rest := ih (some token.tag) .closed
      (fun other member => visible other (List.mem_cons_of_mem _ member))
      (fun other member => sound other (List.mem_cons_of_mem _ member))
    refine rest.trans ?_
    rw [List.getLast?_cons]
    cases tokens.getLast? <;> rfl

theorem endsWithSpread_iff {text : String} {body : List Lexeme} {final : Lexeme}
    (fits : text.utf8ByteSize ≤ maxOffset) (cut : lexemes text.toList = body ++ [final])
    (visible : final.tag.isTrivia = false)
    (sound : ∀ lexeme ∈ lexemes text.toList, lexeme.tag.isMalformed = false) :
    endsWithSpread text ↔ final.tag = .ellipsis := by
  have tokensSound : ∀ token ∈ significantTokens text, token.tag.isMalformed = false :=
    fun token member => tag_of_mem_tokensFrom (P := fun tag => tag.isMalformed = false) sound token
      (List.mem_filter.mp member).1
  have last : (significantTokens text).getLast?.map Token.tag = some final.tag := by
    rw [significantTokens, tokens, cut, filter_tokensFrom_concat 0 body visible (by simp),
      List.getLast?_concat]
    rfl
  rw [endsWithSpread, blind.recognize_eq_run fits,
    run_eq _ _ _ visible_significantTokens tokensSound, last]
  change (some final.tag == some Tag.ellipsis) = true ↔ _
  simp

private theorem ascii_points : ∀ c ∈ "...".toList, c.toNat < 128 := by
  simp

theorem endsWithSpread_of_not_endsInPoints {text : String} (fits : text.utf8ByteSize ≤ maxOffset)
    (trimmed : Trimmed (lexemes text.toList))
    (sound : ∀ lexeme ∈ lexemes text.toList, lexeme.tag.isMalformed = false)
    (other : ¬ EndsInPoints (lexemes text.toList)) :
    endsWithSpread text = false ∧ ¬ Text.bytes "...".toList <:+ Text.bytes text.toList := by
  constructor
  · obtain ⟨body, final, cut, visible⟩ := trimmed.exists_concat
    rw [Bool.eq_false_iff, ne_eq, endsWithSpread_iff fits cut visible sound]
    intro ellipsis
    exact other ⟨body, final, [], cut, by simp, .inl ellipsis⟩
  · rw [Checked.bytes_suffix_iff ascii_points]
    rintro ⟨front, points⟩
    exact other (endsInPoints_lexemes points.symm sound trimmed.last)

theorem points_of_ellipsis {text : String} {body : List Lexeme} {final : Lexeme}
    (cut : lexemes text.toList = body ++ [final]) (ellipsis : final.tag = .ellipsis) :
    Text.bytes "...".toList <:+ Text.bytes text.toList ∧
      (Token.ofLexeme (Text.byteSize (body.flatMap Lexeme.text)) final).span =
        ⟨text.utf8ByteSize - 3, text.utf8ByteSize⟩ := by
  have spelled : final.text = "...".toList :=
    @text_of_mem_lexemes text.toList final (by simp [cut]) _ (by rw [ellipsis]; rfl)
  have points : text.toList = body.flatMap Lexeme.text ++ "...".toList := by
    rw [← flatMap_text_lexemes text.toList, cut, List.flatMap_append, List.flatMap_singleton,
      spelled]
  have length : text.utf8ByteSize = Text.byteSize (body.flatMap Lexeme.text) + 3 := by
    rw [← Text.byteSize_toList, points, Text.byteSize_append]
    rfl
  constructor
  · exact (Checked.bytes_suffix_iff ascii_points).mpr ⟨_, points.symm⟩
  · rw [length, Token.ofLexeme, Lexeme.byteSize, spelled]
    rfl

end Spread

theorem Tag.plain_of_mark {tag : Tag} (mark : tag = .dot ∨ tag = .ellipsis ∨ tag.isLiteral) :
    tag.isBracket = false ∧ tag.isTrivia = false := by
  cases tag with
  | dot | ellipsis | literal => exact ⟨rfl, rfl⟩
  | _ => simp [isLiteral] at mark

namespace Expression

namespace Phase

variable {phase next : Phase} {previous : Tag} {gap : Gap} {token : Token}

private theorem afterOperand_ne_advance (mark : token.tag = .ellipsis ∨ token.tag.isLiteral) :
    afterOperandReaction previous gap token ≠ .ok (.advance next) := by
  intro settled
  cases afterOperandReaction_eq_ok settled with
  | point dot => simp [dot, Tag.isLiteral] at mark
  | group opens => simp [opens, Tag.isLiteral] at mark
  | binary operator =>
    obtain ⟨kind, tag⟩ := Tag.exists_operator (.inr operator)
    simp [tag, Tag.isLiteral] at mark

theorem begins_of_mark {phase : Phase} (mark : token.tag = .ellipsis ∨ token.tag.isLiteral)
    (settled : phase.settle previous gap token = .ok (.advance next)) :
    token.tag.isLiteral ∧ next = .afterOperand := by
  cases phase with
  | operand =>
    rw [settle_operand, operandReaction] at settled
    rcases mark with tag | literal
    · simp [tag, Tag.isUnaryOperator] at settled
    · cases tag : token.tag with
      | literal kind =>
        simp only [tag] at settled
        cases settled
        exact ⟨rfl, rfl⟩
      | _ => simp [tag, Tag.isLiteral] at literal
  | afterOperand =>
    rw [settle_afterOperand] at settled
    exact absurd settled (afterOperand_ne_advance mark)
  | selector =>
    rw [settle_selector, selectorReaction] at settled
    split at settled
    · next selects =>
      rw [Token.isName_iff] at selects
      rcases selects with ⟨tag, -⟩ | tag <;> simp [tag, Tag.isLiteral] at mark
    · cases settled
  | typeLiteral inSignature =>
    rcases settle_typeLiteral_cases inSignature previous gap token with ⟨extended, -⟩ | ⟨-, same⟩
    · unfold extendsType at extended
      split at extended <;> simp_all [Tag.isLiteral]
    · exact absurd (same.symm.trans settled) (afterOperand_ne_advance mark)
  | members inSignature =>
    rw [settle_members, membersReaction] at settled
    split at settled
    · next tag => simp [tag, Tag.isLiteral] at mark
    · cases settled

theorem not_advance_of_points {other : Token} {also : Gap} {last : Tag} {final : Phase}
    (dot : token.tag = .dot) (point : other.tag = .dot)
    (settled : afterOperand.settle previous gap token = .ok (.advance next)) :
    next.settle last also other ≠ .ok (.advance final) := by
  have due : next = .selector := by
    rw [settle_afterOperand, afterOperandReaction, dot] at settled
    split at settled <;> cases settled
    rfl
  rw [due, settle_selector, selectorReaction, if_neg (by simp [Token.isName, point])]
  simp

end Phase

variable {offset : Nat} {body core : List Lexeme} {mark : Lexeme} {span : Span}
  {state last : State} {gap lastGap : Gap}

theorem advances_of_reads {token : Token} {back : List Token}
    (reads : Reads recognizer state gap (token :: back) last lastGap)
    (topLevel : last.nesting.isTopLevel)
    (plain : ∀ other ∈ token :: back, other.tag.isBracket = false ∧ other.tag.isTrivia = false) :
    ∃ next : State, state.phase.settle state.previous gap token = .ok (.advance next.phase) ∧
      Reads recognizer next .closed back last lastGap := by
  have tracked : Tracked state.nesting (token :: back) last.nesting := tracks.tracked reads
  have outside := tracked.eq_of_plain fun other member => (plain other member).1
  cases reads with
  | trivia trivia _ =>
    have significant : token.isTrivia = false := (plain token (by simp)).2
    simp [significant] at trivia
  | @step _ next _ _ _ _ _ _ _ stepped more =>
    obtain ⟨-, -, -, settled, -⟩ := step_more stepped
    exact ⟨next, settled (by rw [← outside]; exact topLevel), more⟩

theorem not_endsInPoints (reads : Reads recognizer state gap (tokensFrom offset core) last lastGap)
    (topLevel : last.nesting.isTopLevel) : ¬ EndsInPoints core := by
  rintro ⟨front, mark, points, rfl, dots, marked⟩
  rw [tokensFrom_append] at reads
  obtain ⟨reached, reachedGap, -, reads⟩ := reads.split
  have spread : mark.tag = .ellipsis ∨ mark.tag.isLiteral := marked.imp_right And.left
  have plain : ∀ lexeme ∈ mark :: points,
      lexeme.tag.isBracket = false ∧ lexeme.tag.isTrivia = false :=
    List.forall_mem_cons.mpr ⟨Tag.plain_of_mark (.inr spread),
      fun lexeme member => Tag.plain_of_mark (.inl (dots lexeme member))⟩
  have plain := @tag_of_mem_tokensFrom (fun tag => tag.isBracket = false ∧ tag.isTrivia = false)
    (offset + Text.byteSize (front.flatMap Lexeme.text)) _ plain
  obtain ⟨operand, begins, reads⟩ := advances_of_reads reads topLevel plain
  obtain ⟨literal, due⟩ := Phase.begins_of_mark spread begins
  have literal : mark.tag.isLiteral := literal
  rcases marked with tag | ⟨-, two⟩
  · simp [tag, Tag.isLiteral] at literal
  obtain ⟨first, second, rfl⟩ := List.length_eq_two.mp two
  have plain := (List.forall_mem_cons.mp plain).2
  obtain ⟨selector, settled, reads⟩ := advances_of_reads reads topLevel plain
  obtain ⟨_, selects, -⟩ := advances_of_reads reads topLevel (List.forall_mem_cons.mp plain).2
  rw [due] at settled
  exact Phase.not_advance_of_points (dots first (by simp)) (dots second (by simp)) settled selects

theorem stopped_of_spread (reads : Reads recognizer .start gap (tokensFrom offset body) last lastGap)
    (topLevel : last.nesting.isTopLevel) (complete : last.phase.isComplete)
    (full : ∀ lexeme ∈ body, lexeme.text ≠ [])
    (first : ∀ lexeme ∈ body.head?, lexeme.tag.isTrivia = false) :
    ∃ core after, body = core ++ after ∧ (∀ lexeme ∈ after, lexeme.tag.isTrivia) ∧ Trimmed core ∧
      ¬ EndsInPoints core ∧
      Whole offset core ⟨offset, offset + Text.byteSize (core.flatMap Lexeme.text)⟩ := by
  rcases trivia_or_trimmed body with all | ⟨before, core, after, rfl, left, trimmed, right⟩
  · obtain rfl := reads.eq_of_trivia (isTrivia_tokensFrom all)
    cases complete
  · obtain rfl : before = [] := by
      cases before with
      | nil => rfl
      | cons lexeme before => simp [first lexeme] at left
    obtain ⟨final, reads⟩ := reads.before_trivia right
    have covers : last.fragment = hull none (tokensFrom offset core) := fragment_eq_hull reads
    rw [hull_inside offset trimmed fun lexeme member => full lexeme (by simp [member])] at covers
    exact ⟨core, after, rfl, right, trimmed, not_endsInPoints reads topLevel,
      .stopped reads topLevel complete covers⟩

/-- The text up to the last token before the mark is an expression on its own. -/
theorem extract_before_mark {text : String} {after : List Lexeme}
    (fits : text.utf8ByteSize ≤ maxOffset) (cut : lexemes text.toList = core ++ after ++ [mark])
    (sound : ∀ lexeme ∈ lexemes text.toList, lexeme.tag.isMalformed = false)
    (trivia : ∀ lexeme ∈ after, lexeme.tag.isTrivia) (visible : mark.tag.isTrivia = false)
    (trimmed : Trimmed core) (other : ¬ EndsInPoints core)
    (whole : Whole offset core ⟨offset, offset + Text.byteSize (core.flatMap Lexeme.text)⟩) :
    ∃ front last body, significantTokens text = front ++
        [last, .ofLexeme (Text.byteSize ((core ++ after).flatMap Lexeme.text)) mark] ∧
      Span.get? ⟨0, last.span.stop⟩ text = some body ∧
      Construct.expression.extract body = .ok ⟨0, body.utf8ByteSize⟩ ∧
      Spread.endsWithSpread body = false := by
  have parts : lexemes text.toList = [] ++ core ++ (after ++ [mark]) := by simp [cut]
  obtain ⟨body, covered, same, size⟩ := get?_of_parts parts
  have small := Nat.le_trans (Span.size_le_of_get? covered) fits
  obtain ⟨front, final, rfl, significant⟩ := trimmed.exists_concat
  refine ⟨(tokensFrom 0 front).filter (fun token => !token.isTrivia),
    .ofLexeme (Text.byteSize (front.flatMap Lexeme.text)) final, body, ?_, ?_, ?_, ?_⟩
  · have last := filter_tokensFrom_concat 0 front significant trivia
    rw [significantTokens, tokens, cut, filter_tokensFrom_concat 0 _ visible (by simp),
      List.append_assoc front, List.singleton_append, last, Nat.zero_add, Nat.zero_add,
      List.append_assoc, List.singleton_append]
  · simpa [Token.ofLexeme, Lexeme.byteSize] using covered
  · have cut : lexemes body.toList = [] ++ (front ++ [final] ++ []) := by simp [same]
    have found := whole.recognize_eq trimmed small cut (by simp) fun _ => .atEnd
    rw [List.flatMap_nil, Text.byteSize_nil, Nat.zero_add, ← size] at found
    exact found
  · refine (Spread.endsWithSpread_of_not_endsInPoints small ?_ ?_ ?_).1 <;> rw [same]
    · exact trimmed
    · exact fun lexeme member => sound lexeme (by
        rw [parts]
        exact List.mem_append_left _ member)
    · exact other

end Expression

/-- An expression ends with a spread mark exactly where its text ends with three
points. Up to the last token before the mark it is an expression in full, and
that one does not end with a spread mark. -/
theorem extract_expression_spread {source : String} {span : Span}
    (extracted : Construct.expression.extract source = .ok span) :
    ∃ text, span.get? source = some text ∧
      (Spread.endsWithSpread text ↔ Text.bytes "...".toList <:+ Text.bytes text.toList) ∧
      (Spread.endsWithSpread text → ∃ front last mark body,
        significantTokens text = front ++ [last, mark] ∧ mark.tag = .ellipsis ∧
          mark.span = ⟨text.utf8ByteSize - 3, text.utf8ByteSize⟩ ∧
          Span.get? ⟨0, last.span.stop⟩ text = some body ∧
          Construct.expression.extract body = .ok ⟨0, body.utf8ByteSize⟩ ∧
          Spread.endsWithSpread body = false) := by
  obtain ⟨leading, inside, behind, cut, -, trimmed, sound, rfl, whole⟩ :=
    Expression.whole_of_recognize extracted
  obtain ⟨text, covered, rfl, size⟩ := get?_of_parts cut
  have fits := Nat.le_trans (Span.size_le_of_get? covered) (recognize_eq_ok extracted).1
  refine ⟨text, covered, ?_⟩
  cases whole with
  | stopped reads topLevel =>
    obtain ⟨none, points⟩ := Spread.endsWithSpread_of_not_endsInPoints fits trimmed sound
      (Expression.not_endsInPoints reads topLevel)
    exact ⟨iff_of_false (by simp [none]) points, by simp [none]⟩
  | @spread last _ _ body mark parts nonempty ellipsis reads stepped =>
    have visible : mark.tag.isTrivia = false := (Tag.plain_of_mark (.inr (.inl ellipsis))).2
    have ends := (Spread.endsWithSpread_iff fits parts visible sound).mpr ellipsis
    obtain ⟨ending, place⟩ := Spread.points_of_ellipsis parts ellipsis
    obtain ⟨topLevel, done⟩ := Expression.step_done stepped
    have complete := done.elim (fun stopped => Expression.Phase.isComplete_of_stop stopped.1)
      fun finished => Expression.Phase.isComplete_of_finish finished.1
    have full : ∀ lexeme ∈ body, lexeme.text ≠ [] := fun lexeme member =>
      @text_ne_nil_of_mem_lexemes text.toList lexeme (by simp [parts, member])
    have first : ∀ lexeme ∈ body.head?, lexeme.tag.isTrivia = false := fun lexeme member =>
      trimmed.first lexeme (by simp [parts, List.head?_append_of_ne_nil _ nonempty, member])
    obtain ⟨core, after, rfl, trivia, trimmed, other, whole⟩ :=
      Expression.stopped_of_spread reads topLevel complete full first
    obtain ⟨front, last, body, significant, cut, extracts, plain⟩ :=
      Expression.extract_before_mark fits parts sound trivia visible trimmed other whole
    exact ⟨iff_of_true ends ending, fun _ =>
      ⟨front, last, _, body, significant, ellipsis, place, cut, extracts, plain⟩⟩

/-- The point in the numeral and those in the string are none of the mark. -/
theorem extract_expression_spread_call :
    Construct.expression.extract " f(1., \"...\").x /**/ ... y" = .ok ⟨1, 24⟩ ∧
      ∃ front last mark body,
        significantTokens "f(1., \"...\").x /**/ ..." = front ++ [last, mark] ∧
          mark.tag = .ellipsis ∧ mark.span = ⟨20, 23⟩ ∧
          Span.get? ⟨0, last.span.stop⟩ "f(1., \"...\").x /**/ ..." = some body ∧
          Construct.expression.extract body = .ok ⟨0, body.utf8ByteSize⟩ ∧
          Spread.endsWithSpread body = false := by
  have extracted : Construct.expression.extract " f(1., \"...\").x /**/ ... y" = .ok ⟨1, 24⟩ := by
    decide +kernel
  obtain ⟨text, covered, -, spread⟩ := extract_expression_spread extracted
  have same : Span.get? ⟨1, 24⟩ " f(1., \"...\").x /**/ ... y" = some "f(1., \"...\").x /**/ ..." := by
    decide +kernel
  obtain rfl := Option.some.inj (covered.symm.trans same)
  have size : "f(1., \"...\").x /**/ ...".utf8ByteSize = 23 := by decide +kernel
  have marked := spread (by decide +kernel)
  rw [size] at marked
  exact ⟨extracted, marked⟩

end FragmentBounds
