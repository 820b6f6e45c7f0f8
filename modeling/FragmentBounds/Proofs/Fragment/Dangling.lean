import FragmentBounds.Proofs.Fragment.HeaderOfExpression
import FragmentBounds.Proofs.Fragment.Parts

/-! Selectors and operands that are due. An expression does not end behind a
point or an operator, and a point at top level selects something, unless these
tokens are taken as part of a type: a type goes on with points, stars and
arrows wherever they stand, and may end behind any of them. -/
namespace FragmentBounds

open Recognizer

/-- Tags behind which an expression goes on. -/
def Tag.dangles (tag : Tag) : Bool :=
  decide (tag = .dot) || tag.isUnaryOperator || tag.isBinaryOperator

theorem Tag.eq_of_dangles {tag : Tag} (dangles : tag.dangles) :
    tag = .dot ∨ ∃ kind, tag = .operator kind := by
  simp only [Tag.dangles, Bool.or_eq_true, decide_eq_true_eq, or_assoc] at dangles
  exact dangles.imp_right exists_operator

theorem Tag.isBracket_of_dangles {tag : Tag} (dangles : tag.dangles) : tag.isBracket = false := by
  rcases eq_of_dangles dangles with rfl | ⟨kind, rfl⟩ <;> rfl

namespace Expression

/-- At top level the token goes on with a type. -/
def PartOfType (source : String) (token : Token) : Prop :=
  Phase.extendsType token ∧ ∃ taken ∈ takenIn source, taken.2 = token ∧
    taken.1.nesting.isTopLevel ∧ ∃ inSignature, taken.1.phase = .typeLiteral inSignature

instance (source : String) (token : Token) : Decidable (PartOfType source token) :=
  inferInstanceAs (Decidable (_ ∧ _))

section Phase

variable {previous : Tag} {gap : Gap} {token : Token} {next : Phase}

private theorem due_of_afterOperand (dangles : token.tag.dangles)
    (settled : Phase.afterOperandReaction previous gap token = .ok (.advance next)) :
    next = if token.tag = .dot then .selector else .operand := by
  cases Phase.afterOperandReaction_eq_ok settled with
  | point dot => rw [if_pos dot]
  | group opens => simp [opens, Tag.dangles, Tag.isUnaryOperator, Tag.isBinaryOperator] at dangles
  | binary operator =>
    have other : token.tag ≠ .dot := fun dot => by simp [dot, Tag.isBinaryOperator] at operator
    rw [if_neg other]

theorem Phase.due_of_dangles {phase : Phase} (dangles : token.tag.dangles)
    (settled : phase.settle previous gap token = .ok (.advance next)) :
    (Phase.extendsType token ∧ ∃ inSignature, phase = .typeLiteral inSignature) ∨
      next = if token.tag = .dot then .selector else .operand := by
  have kinds := Tag.eq_of_dangles dangles
  cases phase with
  | operand =>
    rw [settle_operand] at settled
    rcases kinds with tag | ⟨kind, tag⟩
    · simp [operandReaction, tag, Tag.isUnaryOperator] at settled
    · simp only [operandReaction, tag, Tag.isUnaryOperator] at settled
      cases unary : kind.isUnary <;> simp [unary] at settled
      simp [tag, settled]
  | afterOperand =>
    rw [settle_afterOperand] at settled
    exact .inr (due_of_afterOperand dangles settled)
  -- A name and a bracket are neither points nor operators.
  | selector =>
    rw [settle_selector, selectorReaction] at settled
    split at settled
    · next selects =>
      rw [Token.isName_iff] at selects
      rcases kinds with tag | ⟨kind, tag⟩ <;> simp [tag] at selects
    · cases settled
  | members inSignature =>
    rw [settle_members, membersReaction] at settled
    split at settled
    · next brace => rcases kinds with tag | ⟨kind, tag⟩ <;> simp [tag] at brace
    · cases settled
  | typeLiteral inSignature =>
    rcases settle_typeLiteral_cases inSignature previous gap token with ⟨extended, -⟩ | ⟨-, same⟩
    · exact .inl ⟨extended, inSignature, rfl⟩
    · exact .inr (due_of_afterOperand dangles (same.symm.trans settled))

end Phase

theorem due_of_reads {source : String} {read back front rest : List Token} {mark : Token}
    {last : State} {lastGap : Gap} (cut : tokens source = read ++ back)
    (reads : Reads recognizer recognizer.start .closed read last lastGap)
    (parts : read.filter (fun token => !token.isTrivia) = front ++ mark :: rest)
    (outside : Balanced (front.map Token.tag)) (dangles : mark.tag.dangles) :
    PartOfType source mark ∨ ∃ next after, next.nesting.isTopLevel ∧
      next.phase = (if mark.tag = .dot then .selector else .operand) ∧
      after.filter (fun token => !token.isTrivia) = rest ∧
      Reads recognizer next .closed after last lastGap := by
  obtain ⟨before, after, state, gap, next, rfl, rfl, seen, first, visible, sound, stepped, more⟩ :=
    reads.cut_at parts
  have tracked : Tracked .empty before state.nesting := tracks.tracked first
  have closed : state.nesting = .empty := tracked.significant.unique (outside.tracked .empty)
  have topLevel : state.nesting.isTopLevel := by rw [closed]; rfl
  obtain ⟨kept, -, -, settled, -⟩ := step_more stepped
  rcases Phase.due_of_dangles dangles (settled topLevel) with ⟨extended, typed⟩ | due
  · refine .inl ⟨extended, (state, mark), ?_, rfl, topLevel, typed⟩
    rw [takenIn, cut, List.append_assoc, first.taken_append, List.cons_append,
      taken_step _ visible sound stepped]
    simp
  · rw [state.nesting.track_plain (Tag.isBracket_of_dangles dangles)] at kept
    refine .inr ⟨next, after, ?_, due, seen, more⟩
    rw [← Except.ok.inj kept]
    exact topLevel

theorem selects_of_reads {state last : State} {gap lastGap : Gap} {read : List Token}
    (topLevel : state.nesting.isTopLevel) (due : state.phase = .selector)
    (reads : Reads recognizer state gap read last lastGap) (complete : last.phase.isComplete) :
    ∃ next ∈ (read.filter fun token => !token.isTrivia).head?,
      next.isName ∨ next.tag = .opening .paren := by
  induction reads with
  | nil => simp [due, Phase.isComplete] at complete
  | trivia trivia _ ih =>
    rw [List.filter_cons_of_neg (by simp [trivia])]
    exact ih topLevel due complete
  | @step state _ _ gap _ token _ significant _ stepped _ _ =>
    obtain ⟨-, -, -, settled, -⟩ := step_more stepped
    have settled := settled topLevel
    rw [due, Phase.settle_selector, Phase.selectorReaction] at settled
    rw [List.filter_cons_of_pos (by simp [significant])]
    refine ⟨token, rfl, ?_⟩
    split at settled
    · next selects => exact selects
    · cases settled

/-- The tokens that an expression covers are those read up to where it may end,
and a spread mark if there is one. -/
theorem coveredTokens_of_recognize {source : String} {span : Span}
    (recognized : recognizer.recognize source = .ok span) :
    ∃ read back last lastGap, ∃ spread : Option Token, tokens source = read ++ back ∧
      Reads recognizer recognizer.start .closed read last lastGap ∧ last.nesting.isTopLevel ∧
      last.phase.isComplete ∧ (∀ mark ∈ spread, mark.tag = .ellipsis) ∧
      coveredTokens source span = read.filter (fun token => !token.isTrivia) ++ spread.toList := by
  obtain ⟨-, read, back, last, gap, cut, reads, settles⟩ := recognize_eq_ok recognized
  have covers : last.fragment = hull none read := fragment_eq_hull reads
  obtain ⟨topLevel, ends⟩ := ends_of_settles reads settles
  refine ⟨read, back, last, gap, ?_⟩
  rcases ends with ⟨complete, covered⟩ | ⟨mark, rest, rfl, visible, -, finished, covered, -⟩
  · have parts : tokens source = [] ++ (read ++ back) := cut
    have covered := coveredTokens_of_cut parts (covers.symm.trans covered)
    exact ⟨none, cut, reads, topLevel, complete, by simp, by simpa using covered⟩
  · have wider : hull none (read ++ [mark]) = some span := by
      rw [hull_append, ← covers, hull_cons_significant _ _ visible]
      exact covered
    have parts : tokens source = [] ++ ((read ++ [mark]) ++ rest) := by simp [cut]
    have covered := coveredTokens_of_cut parts wider
    refine ⟨some mark, cut, reads, topLevel, Phase.isComplete_of_finish finished, ?_, ?_⟩
    · simpa using Phase.tag_of_finish finished
    · simpa [visible] using covered

theorem read_of_dangles {seen front back : List Token} {mark : Token} {spread : Option Token}
    (ellipsis : ∀ mark ∈ spread, mark.tag = .ellipsis) (dangles : mark.tag.dangles)
    (cut : seen ++ spread.toList = front ++ mark :: back) :
    ∃ rest, seen = front ++ mark :: rest ∧ back = rest ++ spread.toList := by
  cases spread with
  | none => exact ⟨back, by simpa using cut, by simp⟩
  | some final =>
    have tag : final.tag = .ellipsis := ellipsis final rfl
    rcases List.eq_nil_or_concat back with rfl | ⟨rest, other, rfl⟩
    · obtain ⟨-, same⟩ := List.append_inj' cut rfl
      obtain rfl : final = mark := by simpa using same
      rw [tag] at dangles
      cases dangles
    · rw [List.concat_eq_append, ← List.cons_append, ← List.append_assoc] at cut
      obtain ⟨rfl, same⟩ := List.append_inj' cut rfl
      exact ⟨rest, rfl, by simpa using same.symm⟩

end Expression

/-- Among the tokens of an expression, a point outside brackets is followed by a
name or a parenthesis, and the last token is neither a point nor an operator,
unless it goes on with a type. -/
theorem extract_expression_dangling {source : String} {span : Span}
    (extracted : Construct.expression.extract source = .ok span) :
    (∀ front point back, coveredTokens source span = front ++ point :: back →
        Balanced (front.map Token.tag) → point.tag = .dot →
        Expression.PartOfType source point ∨
          ∃ next ∈ back.head?, next.isName ∨ next.tag = .opening .paren) ∧
      ∀ last ∈ (coveredTokens source span).getLast?, last.tag.dangles →
        Expression.PartOfType source last := by
  obtain ⟨read, behind, state, gap, spread, cut, reads, topLevel, complete, ellipsis, covered⟩ :=
    Expression.coveredTokens_of_recognize extracted
  constructor
  · intro front point back parts outside tag
    have dangles : point.tag.dangles := by rw [tag]; rfl
    rw [covered] at parts
    obtain ⟨rest, seen, rfl⟩ := Expression.read_of_dangles ellipsis dangles parts
    rcases Expression.due_of_reads cut reads seen outside dangles with
      typed | ⟨next, after, topLevel, due, rfl, more⟩
    · exact .inl typed
    · rw [if_pos tag] at due
      obtain ⟨selected, member, selects⟩ :=
        Expression.selects_of_reads topLevel due more complete
      exact .inr ⟨selected, by simp [Option.mem_def.mp member], selects⟩
  · intro final member dangles
    obtain ⟨front, parts⟩ := List.getLast?_eq_some_iff.mp member
    rw [covered] at parts
    obtain ⟨rest, seen, empty⟩ := Expression.read_of_dangles ellipsis dangles parts
    obtain ⟨rfl, -⟩ := List.nil_eq_append_iff.mp empty
    -- The last token is no bracket, so the tokens in front of it are as balanced as all are.
    have outside : Balanced (front.map Token.tag) := by
      have tracked : Tracked .empty read state.nesting := Expression.tracks.tracked reads
      have tracked := tracked.significant
      rw [seen] at tracked
      obtain ⟨nesting, tracked, here⟩ := tracked.split
      have plain := Tag.isBracket_of_dangles dangles
      obtain rfl := here.eq_of_plain (by simpa using plain)
      exact tracked.balanced rfl topLevel
    rcases Expression.due_of_reads cut reads seen outside dangles with
      typed | ⟨next, after, -, due, nothing, more⟩
    · exact typed
    -- Nothing but trivia follows, so what is due would still be due at the end.
    · obtain rfl := more.eq_of_trivia (by simpa using nothing)
      rw [due] at complete
      split at complete <;> cases complete

/-- The first point goes on with the type, and the second one selects. -/
theorem extract_expression_dangling_selector :
    Construct.expression.extract "-[]a.b(x).c" = .ok ⟨0, 11⟩ ∧
      Expression.PartOfType "-[]a.b(x).c" ⟨.dot, ⟨4, 5⟩, "."⟩ ∧
      ¬ Expression.PartOfType "-[]a.b(x).c" ⟨.dot, ⟨9, 10⟩, "."⟩ ∧
      ∃ next ∈ ((coveredTokens "-[]a.b(x).c" ⟨0, 11⟩).drop 10).head?,
        next.isName ∨ next.tag = .opening .paren := by
  have extracted : Construct.expression.extract "-[]a.b(x).c" = .ok ⟨0, 11⟩ := by decide +kernel
  have selects : ¬ Expression.PartOfType "-[]a.b(x).c" ⟨.dot, ⟨9, 10⟩, "."⟩ := by decide +kernel
  have cut : coveredTokens "-[]a.b(x).c" ⟨0, 11⟩ =
      (coveredTokens "-[]a.b(x).c" ⟨0, 11⟩).take 9 ++
        ⟨.dot, ⟨9, 10⟩, "."⟩ :: (coveredTokens "-[]a.b(x).c" ⟨0, 11⟩).drop 10 := by decide +kernel
  have tags : ((coveredTokens "-[]a.b(x).c" ⟨0, 11⟩).take 9).map Token.tag =
      [.operator .minus, .opening .square, .closing .square, .identifier, .dot, .identifier,
        .opening .paren, .identifier, .closing .paren] := by decide +kernel
  have outside : Balanced (((coveredTokens "-[]a.b(x).c" ⟨0, 11⟩).take 9).map Token.tag) := by
    rw [tags]
    exact .plain rfl (.group .square .nil (.plain rfl (.plain rfl (.plain rfl
      (.group .paren (.plain rfl .nil) .nil)))))
  refine ⟨extracted, by decide +kernel, selects, ?_⟩
  exact ((extract_expression_dangling extracted).1 _ _ _ cut outside rfl).resolve_left selects

theorem extract_expression_dangling_fails :
    Construct.expression.extract "[]." = .ok ⟨0, 3⟩ ∧
      (coveredTokens "[]." ⟨0, 3⟩).map Token.tag = [.opening .square, .closing .square, .dot] ∧
      Construct.expression.extract "func*" = .ok ⟨0, 5⟩ ∧
      (coveredTokens "func*" ⟨0, 5⟩).map Token.tag = [.identifier, .operator .star] ∧
      Construct.expression.extract "chan.*" = .ok ⟨0, 6⟩ ∧
      (coveredTokens "chan.*" ⟨0, 6⟩).map Token.tag = [.identifier, .dot, .operator .star] := by
  decide +kernel

end FragmentBounds
