import FragmentBounds.Construct
import FragmentBounds.Proofs.Fragment.Phases
import FragmentBounds.Proofs.Recognizer.Simulation

/-! None of the machines looks at where a token lies except to say so: two
sources with matching tokens have matching fragments or matching faults. -/
namespace FragmentBounds

variable {alignment : Alignment}

namespace Arguments

structure State.Matches (alignment : Alignment) (left right : State) : Prop where
  nesting : left.nesting.Matches alignment right.nesting
  fragment : Option.Rel (Span.Matches alignment) left.fragment right.fragment

theorem respects : recognizer.Respects State.Matches Span.Corresponds where
  step := by
    intro alignment wider state also gap token other within same matched stop ending
    change Agree _ _ (Arguments.step state gap token) (Arguments.step also gap other)
    unfold Arguments.step
    rw [same.nesting.isTopLevel_eq, matched.tag]
    split
    · exact .ok (.done (corresponds_getD same.fragment matched.start))
    · apply (same.nesting.track matched).bind
      intro left right tracked
      have fragment := fragment_mono same.fragment within
      exact .ok (.more ⟨tracked.mono within, (matched.mono within).extendFragment fragment stop⟩)
  atEnd := by
    intro alignment state also size other same aligned
    apply same.nesting.ensureClosed.bind
    intro _ _ _
    exact .ok (corresponds_getD same.fragment aligned)

end Arguments

namespace Label

structure Clause.Matches (alignment : Alignment) (left right : Clause) : Prop where
  keyword : left.keyword.Matches alignment right.keyword
  nesting : left.nesting.Matches alignment right.nesting
  empty : right.empty = left.empty

inductive State.Matches (alignment : Alignment) : State → State → Prop
  | keyword : Matches alignment .keyword .keyword
  | colon {left right : Span} (matched : left.Matches alignment right) :
      Matches alignment (.colon left) (.colon right)
  | clause {left right : Clause} (matched : left.Matches alignment right) :
      Matches alignment (.clause left) (.clause right)

private theorem step_matches {wider : Alignment} {state also : State} (gap : Gap)
    {token other : Token} (within : alignment.Within wider) (same : state.Matches alignment also)
    (matched : token.Matches alignment other) (stop : wider.stops token.span.stop other.span.stop)
    (ending : token.tag.endsFragment → alignment.stops token.span.stop other.span.stop) :
    Agree alignment.starts (Step.Matches (State.Matches wider) (Span.Corresponds alignment))
      (step state gap token) (step also gap other) := by
  have span := (matched.mono within).span stop
  cases same with
  | keyword =>
    simp only [step, matched.keyword?_eq]
    split
    · exact .ok (.more (.colon span))
    · exact .ok (.more (.clause ⟨span, .empty, rfl⟩))
    · exact .error (matched.unexpected .caseLabel)
  | colon keyword =>
    simp only [step, matched.tag]
    split
    · next colon =>
      exact .ok (.done (.covers (keyword.merge (matched.span (ending (.inl colon))))))
    · exact .error (matched.unexpected .colon)
  | @clause left right same =>
    simp only [step, Clause.step, same.nesting.isTopLevel_eq, same.empty, matched.tag]
    split
    · next colon =>
      split
      · exact .error (matched.unexpected .expression)
      · exact .ok (.done (.covers (same.keyword.merge (matched.span (ending (.inl colon.2))))))
    · split
      · exact .error (matched.unexpected .colon)
      · apply (same.nesting.track matched).bind
        intro left right tracked
        exact .ok (.more (.clause ⟨same.keyword.mono within, tracked.mono within, rfl⟩))

theorem respects : recognizer.Respects State.Matches Span.Corresponds where
  step := by
    intro alignment wider state also gap token other
    exact step_matches gap
  atEnd := by
    intro alignment state also size other same aligned
    have ended := Token.matches_endOfInput aligned
    cases same with
    | keyword => exact .error (ended.unexpected .caseLabel)
    | colon => exact .error (ended.unexpected .colon)
    | clause same =>
      exact same.nesting.ensureClosed.bind fun _ _ _ => .error (ended.unexpected .colon)

end Label

namespace Header

structure Clause.Matches (alignment : Alignment) (left right : Clause) : Prop where
  nesting : left.nesting.Matches alignment right.nesting
  body : right.body = left.body
  fragment : Option.Rel (Span.Matches alignment) left.fragment right.fragment
  afterOperand : right.afterOperand = left.afterOperand

inductive State.Matches (alignment : Alignment) : State → State → Prop
  | keyword : Matches alignment .keyword .keyword
  | clause {left right : Clause} (matched : left.Matches alignment right) :
      Matches alignment (.clause left) (.clause right)

theorem endsOperand_eq {token other : Token} (matched : token.Matches alignment other) :
    endsOperand other = endsOperand token := by
  rw [endsOperand, endsOperand, matched.tag, matched.isName_eq]

theorem observe_eq (body : Option Body) (afterOperand : Bool) {token other : Token}
    (matched : token.Matches alignment other) :
    observe body afterOperand other = observe body afterOperand token := by
  rw [observe, observe, matched.tag, matched.keyword?_eq]

theorem Clause.Matches.consume {wider : Alignment} {left right : Clause} {token other : Token}
    (within : alignment.Within wider) (same : left.Matches alignment right)
    (matched : token.Matches alignment other) (stop : wider.stops token.span.stop other.span.stop) :
    Agree alignment.starts (Step.Matches (State.Matches wider) (Span.Corresponds alignment))
      (left.consume token) (right.consume other) := by
  apply (same.nesting.track matched).bind
  intro before after tracked
  have fragment := fragment_mono same.fragment within
  exact .ok (.more (.clause ⟨tracked.mono within, same.body,
    (matched.mono within).extendFragment fragment stop, endsOperand_eq matched⟩))

private theorem finish_matches {left right : Clause} {keyword : Keyword} {token other : Token}
    {T : State → State → Prop} (same : left.Matches alignment right)
    (matched : token.Matches alignment other) :
    Agree alignment.starts (Step.Matches T (Span.Corresponds alignment))
      (left.finish keyword token) (right.finish keyword other) := by
  obtain ⟨_, _, fragment, _⟩ := left
  obtain ⟨_, _, also, _⟩ := right
  have covered := same.fragment
  simp only [Clause.finish]
  cases covered with
  | some covered => exact .ok (.done (.covers covered))
  | none =>
    simp only
    split
    · exact .error (matched.unexpected .condition)
    · exact .ok (.done (.point matched.start))

theorem respects (keyword : Keyword) :
    (recognizer keyword).Respects State.Matches Span.Corresponds where
  step := by
    intro alignment wider state also gap token other within same matched stop ending
    change Agree _ _ (Header.step keyword state gap token) (Header.step keyword also gap other)
    cases same with
    | keyword =>
      simp only [Header.step, matched.keyword?_eq]
      split
      · exact .ok (.more (.clause ⟨.empty, rfl, .none, rfl⟩))
      · exact .error (matched.unexpected _)
    | @clause left right same =>
      simp only [Header.step, Clause.step, same.nesting.isTopLevel_eq, matched.tag, same.body,
        same.afterOperand, observe_eq _ _ matched]
      have consume (body : Option Body) :
          Clause.Matches alignment { left with body := body }
            ⟨right.nesting, body, right.fragment, left.afterOperand⟩ :=
        ⟨same.nesting, rfl, same.fragment, rfl⟩
      split
      · split
        · split
          · exact finish_matches same matched
          · exact (consume _).consume within matched stop
        · exact (consume _).consume within matched stop
      · exact same.consume within matched stop
  atEnd := by
    intro alignment state also size other same aligned
    have ended := Token.matches_endOfInput aligned
    cases same with
    | keyword => exact .error (ended.unexpected _)
    | clause same =>
      exact same.nesting.ensureClosed.bind fun _ _ _ => .error (ended.unexpected .openBrace)

end Header

namespace Expression

namespace Phase

variable {token other : Token} (matched : token.Matches alignment other)
include matched

private theorem operandReaction_agrees :
    Agree alignment.starts Eq (operandReaction token) (operandReaction other) := by
  unfold operandReaction
  rw [matched.tag, matched.keyword?_eq]
  split
  · split
    · exact .ok rfl
    · split
      · exact .ok rfl
      · split
        · exact .ok rfl
        · exact .error (matched.unexpected .expression)
  · exact .ok rfl
  · exact .ok rfl
  · exact .ok rfl
  · split
    · exact .ok rfl
    · exact .error (matched.unexpected .expression)

private theorem afterOperandReaction_agrees (previous : Tag) (gap : Gap) :
    Agree alignment.starts Eq (afterOperandReaction previous gap token)
      (afterOperandReaction previous gap other) := by
  unfold afterOperandReaction
  rw [matched.tag]
  split
  · exact .ok rfl
  · split
    case h_7 bracket _ _ => exact .error (.unmatched bracket matched.start)
    all_goals exact .ok rfl

theorem settle_agrees (phase : Phase) (previous : Tag) (gap : Gap) :
    Agree alignment.starts Eq (phase.settle previous gap token) (phase.settle previous gap other) := by
  cases phase with
  | operand =>
    rw [settle_operand, settle_operand]
    exact operandReaction_agrees matched
  | afterOperand =>
    rw [settle_afterOperand, settle_afterOperand]
    exact afterOperandReaction_agrees matched previous gap
  | selector =>
    rw [settle_selector, settle_selector, selectorReaction, selectorReaction, matched.isName_eq,
      matched.tag]
    split
    · exact .ok rfl
    · exact .error (matched.unexpected .selector)
  | typeLiteral inSignature =>
    have reaction : typeLiteralReaction inSignature other = typeLiteralReaction inSignature token := by
      rw [typeLiteralReaction, typeLiteralReaction, matched.tag, matched.keyword?_eq]
    rw [settle_typeLiteral, settle_typeLiteral, reaction]
    cases typeLiteralReaction inSignature token with
    | settled outcome => exact .ok rfl
    | again _ => exact afterOperandReaction_agrees matched previous gap
  | members inSignature =>
    rw [settle_members, settle_members, membersReaction, membersReaction, matched.tag]
    split
    · exact .ok rfl
    · exact .error (matched.unexpected .openBrace)

end Phase

structure State.Matches (alignment : Alignment) (left right : State) : Prop where
  phase : right.phase = left.phase
  nesting : left.nesting.Matches alignment right.nesting
  fragment : Option.Rel (Span.Matches alignment) left.fragment right.fragment
  previous : right.previous = left.previous

theorem State.Matches.consume {wider : Alignment} {left right : State} {token other : Token}
    (within : alignment.Within wider) (same : left.Matches alignment right)
    (matched : token.Matches alignment other) (stop : wider.stops token.span.stop other.span.stop) :
    Agree alignment.starts (State.Matches wider) (left.consume token) (right.consume other) := by
  apply (same.nesting.track matched).bind
  intro before after tracked
  have fragment := fragment_mono same.fragment within
  exact .ok ⟨same.phase, tracked.mono within,
    (matched.mono within).extendFragment fragment stop, matched.tag⟩

theorem respects : recognizer.Respects State.Matches Span.Corresponds where
  step := by
    intro alignment wider state also gap token other within same matched stop ending
    change Agree _ _ (Expression.step state gap token) (Expression.step also gap other)
    unfold Expression.step
    rw [same.nesting.isTopLevel_eq, same.phase, same.previous]
    split
    · refine (Phase.settle_agrees matched state.phase state.previous gap).bind_of_eq ?_
      rintro outcome _ settled rfl
      cases outcome with
      | advance next =>
        have advanced : State.Matches alignment { state with phase := next }
            ⟨next, also.nesting, also.fragment, state.previous⟩ :=
          ⟨rfl, same.nesting, same.fragment, rfl⟩
        exact (advanced.consume within matched stop).map fun _ _ related => .more related
      | finish =>
        have final := ending (.inr (Phase.tag_of_finish settled))
        apply (same.consume alignment.within_self matched final).bind
        intro last also related
        exact .ok (.done (corresponds_getD related.fragment matched.start))
      | stop => exact .ok (.done (corresponds_getD same.fragment matched.start))
    · exact (same.consume within matched stop).map fun _ _ related => .more related
  atEnd := by
    intro alignment state also size other same aligned
    apply same.nesting.ensureClosed.bind
    intro _ _ _
    have ended := Token.matches_endOfInput aligned
    rw [same.phase, same.previous]
    apply (Phase.settle_agrees ended state.phase state.previous .closed).bind
    intro _ _ _
    exact .ok (corresponds_getD same.fragment aligned)

end Expression

end FragmentBounds
