import FragmentBounds.Fragment.Expression

/-! The phases of an expression one by one: how each settles a token, and in
which of them an expression can end. -/
namespace FragmentBounds.Expression.Phase

theorem settle_eq (phase : Phase) (previous : Tag) (gap : Gap) (token : Token) :
    phase.settle previous gap token =
      match phase.react previous gap token with
      | .error fault => .error fault
      | .ok (.settled outcome) => .ok outcome
      | .ok (.again next) => next.settle previous gap token := by
  rw [settle]
  split <;> simp_all

private theorem settle_of_map {phase : Phase} {previous : Tag} {gap : Gap} {token : Token}
    {reaction : Except Fault Outcome}
    (reacts : phase.react previous gap token = reaction.map .settled) :
    phase.settle previous gap token = reaction := by
  rw [settle_eq, reacts]
  cases reaction <;> rfl

theorem settle_operand (previous : Tag) (gap : Gap) (token : Token) :
    operand.settle previous gap token = operandReaction token := settle_of_map rfl

theorem settle_afterOperand (previous : Tag) (gap : Gap) (token : Token) :
    afterOperand.settle previous gap token = afterOperandReaction previous gap token :=
  settle_of_map rfl

theorem settle_selector (previous : Tag) (gap : Gap) (token : Token) :
    selector.settle previous gap token = selectorReaction token := settle_of_map rfl

theorem settle_members (inSignature : Bool) (previous : Tag) (gap : Gap) (token : Token) :
    (members inSignature).settle previous gap token = membersReaction inSignature token :=
  settle_of_map rfl

theorem settle_typeLiteral (inSignature : Bool) (previous : Tag) (gap : Gap) (token : Token) :
    (typeLiteral inSignature).settle previous gap token =
      match typeLiteralReaction inSignature token with
      | .settled outcome => .ok outcome
      | .again _ => afterOperandReaction previous gap token := by
  rw [settle_eq, react]
  cases found : typeLiteralReaction inSignature token with
  | settled outcome => rfl
  | again next =>
    have reacted : (typeLiteral inSignature).react previous gap token = .ok (.again next) := by
      rw [react, found]
    obtain ⟨rfl, -⟩ := react_eq_again reacted
    exact settle_afterOperand previous gap token

def isComplete : Phase → Bool
  | .afterOperand | .typeLiteral _ => true
  | _ => false

section Reactions

variable {token : Token} {outcome : Outcome}

/-- The tokens that an operand starts with, and the phases they lead to. -/
inductive StartsOperand (token : Token) : Phase → Prop
  | name (name : token.isName) : StartsOperand token .afterOperand
  | literal (literal : token.tag.isLiteral) : StartsOperand token .afterOperand
  | group (paren : token.tag = .opening .paren) : StartsOperand token .afterOperand
  | list (square : token.tag = .opening .square) : StartsOperand token (.typeLiteral false)
  | members {keyword : Keyword} (spelled : token.keyword? = some keyword)
      (body : keyword.hasTypeBody) : StartsOperand token (.members false)
  | type {keyword : Keyword} (spelled : token.keyword? = some keyword)
      (starts : keyword.startsTypeLiteral) : StartsOperand token (.typeLiteral (keyword == .kwFunc))
  | unary (operator : token.tag.isUnaryOperator) : StartsOperand token .operand

/-- The tokens that come behind an operand, and what they do. -/
inductive FollowsOperand (token : Token) : Outcome → Prop
  | stop : FollowsOperand token .stop
  | spread (ellipsis : token.tag = .ellipsis) : FollowsOperand token .finish
  | point (dot : token.tag = .dot) : FollowsOperand token (.advance .selector)
  | group {bracket : Bracket} (opens : token.tag = .opening bracket) :
      FollowsOperand token (.advance .afterOperand)
  | binary (operator : token.tag.isBinaryOperator) : FollowsOperand token (.advance .operand)

theorem operandReaction_cases (token : Token) :
    (∃ next, operandReaction token = .ok (.advance next) ∧ StartsOperand token next) ∨
      operandReaction token = .error (token.unexpected .expression) := by
  unfold operandReaction
  cases tag : token.tag with
  | identifier =>
    cases spelled : token.keyword? with
    | none => exact .inl ⟨_, rfl, .name (Token.isName_iff.mpr ⟨tag, spelled⟩)⟩
    | some keyword =>
      cases body : keyword.hasTypeBody with
      | true => exact .inl ⟨_, by simp [body], .members spelled body⟩
      | false =>
        cases starts : keyword.startsTypeLiteral with
        | true => exact .inl ⟨_, by simp [body, starts], .type spelled starts⟩
        | false => exact .inr (by simp [body, starts])
  | literal kind => exact .inl ⟨_, rfl, .literal (by rw [tag]; rfl)⟩
  | opening bracket =>
    cases bracket with
    | paren => exact .inl ⟨_, rfl, .group tag⟩
    | square => exact .inl ⟨_, rfl, .list tag⟩
    | brace => exact .inr rfl
  | operator kind =>
    cases operator : (Tag.operator kind).isUnaryOperator with
    | true => exact .inl ⟨_, by simp [operator], .unary (by rwa [tag])⟩
    | false => exact .inr (by simp [operator])
  | _ => exact .inr rfl

theorem operandReaction_eq_ok (settled : operandReaction token = .ok outcome) :
    ∃ next, outcome = .advance next ∧ StartsOperand token next := by
  rcases operandReaction_cases token with ⟨next, same, starts⟩ | failed
  · exact ⟨next, Except.ok.inj (settled.symm.trans same), starts⟩
  · rw [failed] at settled
    cases settled

theorem afterOperandReaction_cases (previous : Tag) (gap : Gap) (token : Token) :
    (∃ outcome, afterOperandReaction previous gap token = .ok outcome ∧
        FollowsOperand token outcome) ∨
      ∃ bracket, token.tag = .closing bracket ∧ afterOperandReaction previous gap token =
        .error (.bracket (.unmatched bracket) token.span.start) := by
  unfold afterOperandReaction
  split
  · exact .inl ⟨_, rfl, .stop⟩
  cases tag : token.tag with
  | dot => exact .inl ⟨_, rfl, .point tag⟩
  | ellipsis => exact .inl ⟨_, rfl, .spread tag⟩
  | opening bracket =>
    cases bracket with
    | paren | square => exact .inl ⟨_, rfl, .group tag⟩
    | brace =>
      refine .inl ⟨_, rfl, ?_⟩
      split
      · exact .group tag
      · exact .stop
  | closing bracket =>
    cases bracket with
    | paren | square => exact .inr ⟨_, rfl, rfl⟩
    | brace => exact .inl ⟨_, rfl, .stop⟩
  | _ =>
    refine .inl ⟨_, rfl, ?_⟩
    split
    · next operator => exact .binary (by rwa [tag])
    · exact .stop

theorem afterOperandReaction_eq_ok {previous : Tag} {gap : Gap}
    (settled : afterOperandReaction previous gap token = .ok outcome) :
    FollowsOperand token outcome := by
  rcases afterOperandReaction_cases previous gap token with ⟨also, same, follows⟩ | ⟨_, -, failed⟩
  · obtain rfl := Except.ok.inj (same.symm.trans settled)
    exact follows
  · rw [failed] at settled
    cases settled

end Reactions

theorem advances_of_not_isComplete {phase : Phase} (incomplete : phase.isComplete = false)
    {previous : Tag} {gap : Gap} {token : Token} {outcome : Outcome}
    (settled : phase.settle previous gap token = .ok outcome) : ∃ next, outcome = .advance next := by
  cases phase with
  | operand =>
    rw [settle_operand] at settled
    obtain ⟨next, same, -⟩ := operandReaction_eq_ok settled
    exact ⟨next, same⟩
  | selector =>
    rw [settle_selector, selectorReaction] at settled
    split at settled <;> cases settled
    exact ⟨_, rfl⟩
  | members inSignature =>
    rw [settle_members, membersReaction] at settled
    split at settled <;> cases settled
    exact ⟨_, rfl⟩
  | afterOperand | typeLiteral inSignature => simp [isComplete] at incomplete

def extendsType (token : Token) : Bool :=
  match token.tag with
  | .identifier => token.keyword?.all Keyword.startsTypeLiteral
  | .dot | .operator .star | .operator .arrow | .opening _ => true
  | _ => false

/-- The phases that a token of a type leads to. -/
inductive LeadsOn (inSignature : Bool) (token : Token) : Phase → Prop
  | type : LeadsOn inSignature token (.typeLiteral inSignature)
  | members : LeadsOn inSignature token (.members inSignature)
  | operand {bracket : Bracket} (opens : token.tag = .opening bracket) :
      LeadsOn inSignature token .afterOperand

/-- A type takes in the tokens that extend it and passes on all others. -/
theorem typeLiteralReaction_cases (inSignature : Bool) (token : Token) :
    (extendsType token ∧ ∃ next, typeLiteralReaction inSignature token = .settled (.advance next) ∧
        LeadsOn inSignature token next) ∨
      (extendsType token = false ∧ typeLiteralReaction inSignature token = .again .afterOperand) := by
  unfold extendsType typeLiteralReaction
  cases tag : token.tag with
  | identifier =>
    cases spelled : token.keyword? with
    | none => exact .inl ⟨rfl, _, rfl, .type⟩
    | some keyword =>
      cases starts : keyword.startsTypeLiteral with
      | true =>
        refine .inl ⟨by simp [starts], ?_⟩
        simp only [starts, if_true]
        split
        · exact ⟨_, rfl, .members⟩
        · exact ⟨_, rfl, .type⟩
      | false =>
        have bodiless : keyword.hasTypeBody = false := by
          cases body : keyword.hasTypeBody with
          | false => rfl
          | true => simp [Keyword.startsTypeLiteral_of_hasTypeBody body] at starts
        exact .inr ⟨by simp [starts], by simp [starts, bodiless]⟩
  | opening bracket =>
    cases bracket with
    | paren =>
      refine .inl ⟨rfl, _, rfl, ?_⟩
      split
      · exact .type
      · exact .operand tag
    | square => exact .inl ⟨rfl, _, rfl, .type⟩
    | brace => exact .inl ⟨rfl, _, rfl, .operand tag⟩
  | operator kind =>
    cases kind with
    | star | arrow => exact .inl ⟨rfl, _, rfl, .type⟩
    | _ => exact .inr ⟨rfl, rfl⟩
  | dot => exact .inl ⟨rfl, _, rfl, .type⟩
  | _ => exact .inr ⟨rfl, rfl⟩

theorem leadsOn_of_settled {inSignature : Bool} {token : Token} {next : Phase}
    (taken : typeLiteralReaction inSignature token = .settled (.advance next)) :
    LeadsOn inSignature token next := by
  rcases typeLiteralReaction_cases inSignature token with ⟨-, also, same, leads⟩ | ⟨-, passed⟩
  · obtain rfl := Outcome.advance.inj (Reaction.settled.inj (same.symm.trans taken))
    exact leads
  · rw [passed] at taken
    cases taken

theorem settle_typeLiteral_cases (inSignature : Bool) (previous : Tag) (gap : Gap) (token : Token) :
    (extendsType token ∧ ∃ next, typeLiteralReaction inSignature token = .settled (.advance next) ∧
        (typeLiteral inSignature).settle previous gap token = .ok (.advance next)) ∨
      (extendsType token = false ∧
        (typeLiteral inSignature).settle previous gap token =
          afterOperandReaction previous gap token) := by
  rw [settle_typeLiteral]
  rcases typeLiteralReaction_cases inSignature token with ⟨extended, next, taken, -⟩ | ⟨other, passed⟩
  · exact .inl ⟨extended, next, taken, by rw [taken]⟩
  · exact .inr ⟨other, by rw [passed]⟩

theorem settle_of_extendsType {token : Token} (extended : extendsType token) (inSignature : Bool)
    (previous : Tag) (gap : Gap) :
    ∃ next, (typeLiteral inSignature).settle previous gap token = .ok (.advance next) := by
  rcases settle_typeLiteral_cases inSignature previous gap token with ⟨-, next, -, same⟩ | ⟨other, -⟩
  · exact ⟨next, same⟩
  · simp [extended] at other

theorem stop_of_broken {phase : Phase} (complete : phase.isComplete) (previous : Tag) {gap : Gap}
    (broken : gap.broken) {token : Token}
    (ended : ∀ inSignature, phase = .typeLiteral inSignature → extendsType token = false) :
    phase.settle previous gap token = .ok .stop := by
  have after : afterOperandReaction previous gap token = .ok .stop := by
    rw [afterOperandReaction, if_pos broken]
  cases phase with
  | afterOperand => rw [settle_afterOperand, after]
  | typeLiteral inSignature =>
    rcases settle_typeLiteral_cases inSignature previous gap token with ⟨extended, -⟩ | ⟨-, passed⟩
    · simp [ended inSignature rfl] at extended
    · exact passed.trans after
  | operand | selector | members inSignature => simp [isComplete] at complete

theorem tag_of_finish {phase : Phase} {previous : Tag} {gap : Gap} {token : Token}
    (settled : phase.settle previous gap token = .ok .finish) : token.tag = .ellipsis := by
  have after : afterOperandReaction previous gap token = .ok .finish → token.tag = .ellipsis := by
    intro settled
    cases afterOperandReaction_eq_ok settled with
    | spread ellipsis => exact ellipsis
  cases complete : phase.isComplete with
  | false =>
    obtain ⟨next, same⟩ := advances_of_not_isComplete complete settled
    cases same
  | true =>
    cases phase with
    | afterOperand =>
      rw [settle_afterOperand] at settled
      exact after settled
    | typeLiteral inSignature =>
      rcases settle_typeLiteral_cases inSignature previous gap token with
        ⟨-, next, -, taken⟩ | ⟨-, passed⟩
      · rw [taken] at settled
        cases settled
      · exact after (passed.symm.trans settled)
    | operand | selector | members inSignature => simp [isComplete] at complete

private theorem isComplete_of_settle {phase : Phase} {previous : Tag} {gap : Gap} {token : Token}
    {outcome : Outcome} (settled : phase.settle previous gap token = .ok outcome)
    (ends : ∀ next, outcome ≠ .advance next) : phase.isComplete := by
  cases complete : phase.isComplete with
  | true => rfl
  | false =>
    obtain ⟨next, same⟩ := advances_of_not_isComplete complete settled
    exact absurd same (ends next)

theorem isComplete_of_stop {phase : Phase} {previous : Tag} {gap : Gap} {token : Token}
    (settled : phase.settle previous gap token = .ok .stop) : phase.isComplete :=
  isComplete_of_settle settled (by simp)

theorem isComplete_of_finish {phase : Phase} {previous : Tag} {gap : Gap} {token : Token}
    (settled : phase.settle previous gap token = .ok .finish) : phase.isComplete :=
  isComplete_of_settle settled (by simp)

theorem stop_of_isComplete {phase : Phase} (complete : phase.isComplete) (previous : Tag)
    (gap : Gap) {token : Token} (ends : token.tag = .closing .brace ∨ token.tag = .endOfInput) :
    phase.settle previous gap token = .ok .stop := by
  have after : afterOperandReaction previous gap token = .ok .stop := by
    unfold afterOperandReaction
    rcases ends with tag | tag <;> simp [tag, Tag.isBinaryOperator]
  cases phase with
  | afterOperand => rw [settle_afterOperand, after]
  | typeLiteral inSignature =>
    have outside : typeLiteralReaction inSignature token = .again .afterOperand := by
      unfold typeLiteralReaction
      rcases ends with tag | tag <;> simp [tag]
    rw [settle_typeLiteral, outside]
    exact after
  | operand | selector | members inSignature => simp [isComplete] at complete

theorem fails_atEnd {phase : Phase} (incomplete : phase.isComplete = false) (previous : Tag)
    (gap : Gap) (size : Nat) (outcome : Outcome) :
    phase.settle previous gap (.endOfInput size) ≠ .ok outcome := by
  intro settled
  cases phase with
  | operand =>
    rw [settle_operand] at settled
    simp [operandReaction, Token.endOfInput, Tag.isUnaryOperator] at settled
  | selector =>
    rw [settle_selector] at settled
    simp [selectorReaction, Token.endOfInput, Token.isName] at settled
  | members inSignature =>
    rw [settle_members] at settled
    simp [membersReaction, Token.endOfInput] at settled
  | afterOperand | typeLiteral inSignature => simp [isComplete] at incomplete

theorem settle_error {phase : Phase} {previous : Tag} {gap : Gap} {token : Token} {fault : Fault}
    (failed : phase.settle previous gap token = .error fault) :
    (∃ what, fault = token.unexpected what) ∨ ∃ bracket, token.tag = .closing bracket ∧
      fault = .bracket (.unmatched bracket) token.span.start := by
  have after (failed : afterOperandReaction previous gap token = .error fault) :
      ∃ bracket, token.tag = .closing bracket ∧
        fault = .bracket (.unmatched bracket) token.span.start := by
    rcases afterOperandReaction_cases previous gap token with ⟨_, same, -⟩ | ⟨bracket, tag, refused⟩
    · rw [same] at failed
      cases failed
    · exact ⟨bracket, tag, Except.error.inj (failed.symm.trans refused)⟩
  cases phase with
  | operand =>
    rw [settle_operand] at failed
    rcases operandReaction_cases token with ⟨next, same, -⟩ | refused
    · rw [same] at failed
      cases failed
    · exact .inl ⟨.expression, Except.error.inj (failed.symm.trans refused)⟩
  | afterOperand =>
    rw [settle_afterOperand] at failed
    exact .inr (after failed)
  | selector =>
    rw [settle_selector, selectorReaction] at failed
    split at failed <;> cases failed
    exact .inl ⟨.selector, rfl⟩
  | typeLiteral inSignature =>
    rw [settle_typeLiteral] at failed
    split at failed
    · cases failed
    · exact .inr (after failed)
  | members inSignature =>
    rw [settle_members, membersReaction] at failed
    split at failed <;> cases failed
    exact .inl ⟨.openBrace, rfl⟩

end FragmentBounds.Expression.Phase
