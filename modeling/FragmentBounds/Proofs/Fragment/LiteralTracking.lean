import FragmentBounds.Proofs.Fragment.LineBreak
import FragmentBounds.Proofs.Fragment.HeaderEmbedding

/-! Expressions and headers keep track of type literals in step. What the next
brace opens in a header is known from the phase of the expression in it. They
part at two places alone: a brace behind an operand, which opens a literal in
an expression only, and a function type inside another type, of which only a
header looks for the body. -/
namespace FragmentBounds

open Recognizer

namespace Expression

/-- What the next brace opens in a header that is in this phase as an expression. -/
def Phase.body : Phase → Option Header.Body
  | .operand | .afterOperand | .selector => none
  | .typeLiteral inSignature => some (if inSignature then .function else .literal)
  | .members inSignature => some (.members inSignature)

variable {next : Phase} {previous : Tag} {gap : Gap} {token : Token}

section Reactions

variable (brace : token.tag ≠ .opening .brace)

theorem observe_of_not_extendsType (other : Phase.extendsType token = false)
    (body : Option Header.Body) (afterOperand : Bool) :
    Header.observe body afterOperand token = none := by
  unfold Phase.extendsType at other
  unfold Header.observe
  cases tag : token.tag with
  | identifier =>
    cases spelled : token.keyword? with
    | none => simp [tag, spelled] at other
    | some keyword =>
      have starts : keyword.startsTypeLiteral = false := by simpa [tag, spelled] using other
      cases keyword <;> first | rfl | cases starts
  | operator kind => cases kind <;> first | rfl | simp [tag] at other
  | opening bracket => simp [tag] at other
  | dot => simp [tag] at other
  | _ => rfl

theorem observe_operand (settled : Phase.operandReaction token = .ok (.advance next)) :
    Header.observe none false token = next.body := by
  unfold Phase.operandReaction at settled
  unfold Header.observe
  cases tag : token.tag with
  | identifier =>
    cases spelled : token.keyword? with
    | none =>
      simp only [tag, spelled] at settled ⊢
      cases settled
      rfl
    | some keyword =>
      simp only [tag, spelled] at settled ⊢
      cases keyword <;> simp [Keyword.hasTypeBody, Keyword.startsTypeLiteral] at settled ⊢ <;>
        cases settled <;> rfl
  | opening bracket =>
    cases bracket <;> simp [tag, Tag.isUnaryOperator] at settled ⊢ <;> cases settled <;> rfl
  | literal kind =>
    simp only [tag] at settled ⊢
    cases settled
    rfl
  | operator kind =>
    simp only [tag] at settled ⊢
    split at settled <;> cases settled
    cases kind <;> rfl
  | _ => simp [tag, Tag.isUnaryOperator] at settled

include brace in
theorem observe_afterOperand
    (settled : Phase.afterOperandReaction previous gap token = .ok (.advance next)) :
    Header.observe none true token = next.body := by
  unfold Phase.afterOperandReaction at settled
  split at settled
  · cases settled
  unfold Header.observe
  cases tag : token.tag with
  | dot =>
    simp only [tag] at settled ⊢
    cases settled
    rfl
  | opening bracket =>
    cases bracket with
    | brace => exact absurd tag brace
    | paren | square =>
      simp only [tag] at settled ⊢
      cases settled
      rfl
  | operator kind =>
    simp only [tag] at settled ⊢
    split at settled <;> cases settled
    cases kind <;> rfl
  | closing bracket => cases bracket <;> simp [tag] at settled
  | _ => simp [tag, Tag.isBinaryOperator] at settled

theorem observe_selector {afterOperand : Bool}
    (settled : Phase.selectorReaction token = .ok (.advance next)) :
    Header.observe none afterOperand token = next.body := by
  unfold Phase.selectorReaction at settled
  split at settled
  · next selects =>
    cases settled
    rcases selects with name | paren
    · obtain ⟨tag, spelled⟩ : token.tag = .identifier ∧ token.keyword? = none := by
        simpa [Token.isName] using name
      simp only [Header.observe, tag, spelled]
      rfl
    · simp only [Header.observe, paren]
      rfl
  · cases settled

include brace in
theorem observe_typeLiteral {inSignature afterOperand : Bool}
    (taken : Phase.typeLiteralReaction inSignature token = .settled (.advance next))
    (nominal : inSignature = false → token.keyword? ≠ some .kwFunc) :
    Header.observe (Phase.typeLiteral inSignature).body afterOperand token = next.body := by
  unfold Phase.typeLiteralReaction at taken
  unfold Header.observe
  cases tag : token.tag with
  | identifier =>
    cases spelled : token.keyword? with
    | none =>
      simp only [tag, spelled] at taken ⊢
      cases taken
      rfl
    | some keyword =>
      simp only [tag, spelled] at taken ⊢
      cases inSignature <;> cases keyword <;>
        simp [Keyword.hasTypeBody, Keyword.startsTypeLiteral, spelled, Phase.body] at taken nominal ⊢ <;>
        cases taken <;> rfl
  | opening bracket =>
    cases bracket with
    | brace => exact absurd tag brace
    | paren | square =>
      simp only [tag] at taken ⊢
      cases taken
      cases inSignature <;> rfl
  | operator kind => cases kind <;> simp [tag] at taken <;> cases taken <;> rfl
  | dot =>
    simp only [tag] at taken ⊢
    cases taken
    rfl
  | _ => simp [tag] at taken

end Reactions

theorem observe_of_advance {phase : Phase}
    (settled : phase.settle previous gap token = .ok (.advance next))
    (brace : token.tag ≠ .opening .brace) {afterOperand : Bool}
    (operand : phase = .operand → afterOperand = false)
    (ended : phase = .afterOperand → afterOperand = true)
    (nominal : phase = .typeLiteral false → token.keyword? ≠ some .kwFunc) :
    Header.observe phase.body afterOperand token = next.body := by
  cases phase with
  | operand =>
    rw [Phase.settle_operand] at settled
    rw [operand rfl]
    exact observe_operand settled
  | afterOperand =>
    rw [Phase.settle_afterOperand] at settled
    rw [ended rfl]
    exact observe_afterOperand brace settled
  | selector =>
    rw [Phase.settle_selector] at settled
    exact observe_selector settled
  | typeLiteral inSignature =>
    rcases Phase.settle_typeLiteral_cases inSignature previous gap token with
      ⟨-, after, reacts, taken⟩ | ⟨other, passed⟩
    · rw [taken] at settled
      cases settled
      exact observe_typeLiteral brace reacts fun same => nominal (by rw [same])
    · rw [passed] at settled
      rw [← observe_afterOperand brace settled, observe_of_not_extendsType other,
        observe_of_not_extendsType other]
  | members inSignature =>
    rw [Phase.settle_members, Phase.membersReaction, if_neg brace] at settled
    cases settled

theorem body_of_brace {phase : Phase}
    (settled : phase.settle previous gap token = .ok (.advance next))
    (brace : token.tag = .opening .brace) (typed : phase ≠ .afterOperand) :
    ∃ body, phase.body = some body ∧ next.body = body.next? := by
  cases phase with
  | operand =>
    simp [Phase.settle_operand, Phase.operandReaction, brace, Tag.isUnaryOperator] at settled
  | afterOperand => exact absurd rfl typed
  | selector => simp [Phase.settle_selector, Phase.selectorReaction, brace, Token.isName] at settled
  | typeLiteral inSignature =>
    simp only [Phase.settle_typeLiteral, Phase.typeLiteralReaction, brace] at settled
    cases settled
    cases inSignature <;> exact ⟨_, rfl, rfl⟩
  | members inSignature =>
    simp only [Phase.settle_members, Phase.membersReaction, brace, if_true] at settled
    cases settled
    cases inSignature <;> exact ⟨_, rfl, rfl⟩

theorem isOperator_of_operand {phase : Phase}
    (settled : phase.settle previous gap token = .ok (.advance .operand)) :
    token.tag.isUnaryOperator ∨ token.tag.isBinaryOperator := by
  have after (settled : Phase.afterOperandReaction previous gap token = .ok (.advance .operand)) :
      token.tag.isBinaryOperator := by
    cases Phase.afterOperandReaction_eq_ok settled with
    | binary operator => exact operator
  cases phase with
  | operand =>
    rw [Phase.settle_operand] at settled
    obtain ⟨_, same, starts⟩ := Phase.operandReaction_eq_ok settled
    cases same
    cases starts with
    | unary operator => exact .inl operator
  | afterOperand =>
    rw [Phase.settle_afterOperand] at settled
    exact .inr (after settled)
  | selector =>
    rw [Phase.settle_selector, Phase.selectorReaction] at settled
    split at settled <;> cases settled
  | typeLiteral inSignature =>
    rcases Phase.settle_typeLiteral_cases inSignature previous gap token with
      ⟨-, next, reacts, taken⟩ | ⟨-, passed⟩
    · rw [taken] at settled
      cases settled
      cases Phase.leadsOn_of_settled reacts
    · rw [passed] at settled
      exact .inr (after settled)
  | members inSignature =>
    rw [Phase.settle_members, Phase.membersReaction] at settled
    split at settled <;> cases settled

theorem plain_of_operator (operator : token.tag.isUnaryOperator ∨ token.tag.isBinaryOperator) :
    token.tag.isBracket = false ∧ Header.endsOperand token = false := by
  obtain ⟨kind, tag⟩ := Tag.exists_operator operator
  simp [Header.endsOperand, Token.isName, tag, Tag.isBracket, Tag.opens?, Tag.closes?, Tag.isLiteral]

theorem endsOperand_of_afterOperand {phase : Phase}
    (settled : phase.settle previous gap token = .ok (.advance .afterOperand)) :
    token.tag.opens?.isSome ∨ Header.endsOperand token := by
  have after (settled : Phase.afterOperandReaction previous gap token = .ok (.advance .afterOperand)) :
      token.tag.opens?.isSome := by
    cases Phase.afterOperandReaction_eq_ok settled with
    | group opens =>
      rw [opens]
      rfl
  cases phase with
  | operand =>
    rw [Phase.settle_operand] at settled
    obtain ⟨_, same, starts⟩ := Phase.operandReaction_eq_ok settled
    cases same
    cases starts with
    | name name => exact .inr (by simp [Header.endsOperand, name])
    | literal literal => exact .inr (by simp [Header.endsOperand, literal])
    | group paren => exact .inl (by rw [paren]; rfl)
  | afterOperand =>
    rw [Phase.settle_afterOperand] at settled
    exact .inl (after settled)
  | selector =>
    rw [Phase.settle_selector, Phase.selectorReaction] at settled
    split at settled
    · next selects =>
      rcases selects with name | paren
      · exact .inr (by simp [Header.endsOperand, name])
      · exact .inl (by rw [paren]; rfl)
    · cases settled
  | typeLiteral inSignature =>
    rcases Phase.settle_typeLiteral_cases inSignature previous gap token with
      ⟨-, next, reacts, taken⟩ | ⟨-, passed⟩
    · rw [taken] at settled
      cases settled
      cases Phase.leadsOn_of_settled reacts with
      | operand opens => exact .inl (by rw [opens]; rfl)
    · rw [passed] at settled
      exact .inl (after settled)
  | members inSignature =>
    rw [Phase.settle_members, Phase.membersReaction] at settled
    split at settled <;> cases settled

/-- An expression and a header that have read the same tokens. -/
structure InStep (state : State) (clause : Header.Clause) : Prop where
  nesting : clause.nesting = state.nesting
  body : clause.body = state.phase.body
  operand : state.phase = .operand → state.nesting.isTopLevel ∧ clause.afterOperand = false
  ended : state.phase = .afterOperand → state.nesting.isTopLevel → clause.afterOperand = true

theorem InStep.start : InStep .start .start := ⟨rfl, rfl, fun _ => ⟨rfl, rfl⟩, nofun⟩

structure Shared (state : State) (token : Token) : Prop where
  literal : state.nesting.isTopLevel → state.phase = .afterOperand → token.tag ≠ .opening .brace
  function : state.nesting.isTopLevel → state.phase = .typeLiteral false →
    token.keyword? ≠ some .kwFunc

theorem InStep.step_clause {state next : State} {clause : Header.Clause}
    (inStep : InStep state clause) (shared : Shared state token)
    (stepped : recognizer.step state gap token = .ok (.more next)) (keyword : Keyword) :
    (Header.recognizer keyword).step (.clause clause) gap token =
      .ok (.more (.clause ⟨next.nesting, next.phase.body, extendFragment clause.fragment token,
        Header.endsOperand token⟩)) := by
  obtain ⟨tracked, -, -, settles, kept⟩ := step_more stepped
  rw [← inStep.nesting] at tracked
  have consumed (body : Option Header.Body) : { clause with body := body }.consume token =
      .ok (.more (.clause ⟨next.nesting, body, extendFragment clause.fragment token,
        Header.endsOperand token⟩)) :=
    Header.consume_eq.mpr ⟨next.nesting, tracked, rfl⟩
  change clause.step keyword token = _
  cases topLevel : state.nesting.isTopLevel with
  -- Neither looks at a token inside brackets.
  | false =>
    have nested : clause.nesting.isTopLevel = false := by rw [inStep.nesting, topLevel]
    have same : next.phase.body = clause.body := by rw [kept topLevel, inStep.body]
    rw [Header.Clause.step, if_neg (by simp [nested]), same]
    exact consumed clause.body
  | true =>
    have outside : clause.nesting.isTopLevel := by rw [inStep.nesting, topLevel]
    have settled := settles topLevel
    rw [Header.Clause.step, if_pos outside]
    by_cases brace : token.tag = .opening .brace
    · have typed : state.phase ≠ .afterOperand := fun same => shared.literal topLevel same brace
      obtain ⟨body, opened, closed⟩ := body_of_brace settled brace typed
      rw [if_pos brace, inStep.body, opened, closed]
      exact consumed body.next?
    · have observed := observe_of_advance settled brace (fun same => (inStep.operand same).2)
        (fun same => inStep.ended same topLevel) (shared.function topLevel)
      rw [if_neg brace, inStep.body, observed]
      exact consumed next.phase.body

theorem InStep.after_step {state next : State} {clause : Header.Clause} (inStep : InStep state clause)
    (stepped : recognizer.step state gap token = .ok (.more next)) (fragment : Option Span) :
    InStep next ⟨next.nesting, next.phase.body, fragment, Header.endsOperand token⟩ := by
  obtain ⟨tracked, -, -, settles, kept⟩ := step_more stepped
  refine ⟨rfl, rfl, fun operand => ?_, fun ended outside => ?_⟩
  · cases topLevel : state.nesting.isTopLevel with
    -- Brackets are open behind an operand or in a type only.
    | false =>
      have within := (inStep.operand ((kept topLevel).symm.trans operand)).1
      simp [topLevel] at within
    | true =>
      have settled := settles topLevel
      rw [operand] at settled
      obtain ⟨plain, other⟩ := plain_of_operator (isOperator_of_operand settled)
      rw [state.nesting.track_plain plain] at tracked
      exact ⟨by rw [← Except.ok.inj tracked, topLevel], other⟩
  · cases topLevel : state.nesting.isTopLevel with
    | false => simp [Header.endsOperand, Nesting.closes_of_track tracked topLevel outside]
    | true =>
      have settled := settles topLevel
      rw [ended] at settled
      rcases endsOperand_of_afterOperand settled with opens | ends
      · simp [Nesting.opens?_of_track tracked outside] at opens
      · exact ends

/-- An expression is read in a header as it is on its own. -/
theorem InStep.reads {state last : State} {clause : Header.Clause} {gap lastGap : Gap}
    {front : List Token} (inStep : InStep state clause)
    (reads : Reads recognizer state gap front last lastGap)
    (shared : ∀ taken ∈ recognizer.taken state gap front, Shared taken.1 taken.2)
    (keyword : Keyword) :
    ∃ after, Reads (Header.recognizer keyword) (.clause clause) gap front (.clause after) lastGap ∧
      InStep last after := by
  induction reads generalizing clause with
  | nil state gap => exact ⟨clause, .nil _ _, inStep⟩
  | trivia trivia _ ih =>
    rw [taken_trivia _ _ _ _ trivia] at shared
    obtain ⟨after, more, kept⟩ := ih inStep shared
    exact ⟨after, .trivia trivia more, kept⟩
  | step significant wellFormed stepped _ ih =>
    rw [taken_step _ significant wellFormed stepped, List.forall_mem_cons] at shared
    have entered := inStep.step_clause shared.1 stepped keyword
    obtain ⟨after, more, kept⟩ := ih (inStep.after_step stepped _) shared.2
    exact ⟨after, .step significant wellFormed entered more, kept⟩

end Expression

end FragmentBounds
