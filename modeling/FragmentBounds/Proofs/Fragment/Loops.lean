import FragmentBounds.Proofs.Fragment.Steps
import FragmentBounds.Proofs.Recognizer.TokenLoop
import FragmentBounds.Proofs.Token.ReadAt

/-! The machines as loops over a token stream. Each leaves its loop at the end of
the source in a way of its own: by a fault, because a bracket is still open, or
because the fragment ends there. -/
namespace FragmentBounds

namespace Nesting

theorem ensureClosed_of_isTopLevel {nesting : Nesting} (topLevel : nesting.isTopLevel) :
    nesting.ensureClosed = .ok () :=
  (ensureClosed_eq_ok nesting).mpr topLevel

theorem exists_unclosed {nesting : Nesting} (nested : nesting.isTopLevel = false) :
    ∃ fault, nesting.ensureClosed = .error fault := by
  cases closed : nesting.ensureClosed with
  | ok => simp [(ensureClosed_eq_ok nesting).mp closed] at nested
  | error fault => exact ⟨fault, rfl⟩

end Nesting

namespace Header

/-- Inside brackets the end of the source is tracked like any other token, unless
a bracket is found to be open. -/
def Clause.turn (clause : Clause) (keyword : Keyword) (token : Token) :
    Except Fault (Step State Span) :=
  if clause.nesting.isTopLevel then
    if token.tag = .endOfInput then .error (token.unexpected .openBrace)
    else clause.step keyword token
  else do
    if token.tag = .endOfInput then clause.nesting.ensureClosed
    clause.consume token

def turn (keyword : Keyword) (state : State) (gap : Gap) (token : Token) :
    Except Fault (Step State Span) :=
  match state with
  | .keyword => step keyword .keyword gap token
  | .clause clause => clause.turn keyword token

def tokenLoop (keyword : Keyword) : TokenLoop State Span := ⟨.keyword, turn keyword⟩

theorem unrolls (keyword : Keyword) : (tokenLoop keyword).Unrolls (recognizer keyword) := by
  refine ⟨rfl, ?_, ?_⟩
  · intro state gap token inside
    cases state with
    | keyword => rfl
    | clause clause =>
      simp only [tokenLoop, turn, recognizer, step, Clause.turn, if_neg inside]
      split
      · rfl
      · next nested => simp [Clause.step, nested]
  · intro state gap size
    cases state with
    | keyword => rfl
    | clause clause =>
      simp only [tokenLoop, turn, Clause.turn, recognizer, atEnd]
      cases topLevel : clause.nesting.isTopLevel with
      | true =>
        rw [Nesting.ensureClosed_of_isTopLevel topLevel]
        rfl
      | false =>
        obtain ⟨fault, unclosed⟩ := Nesting.exists_unclosed topLevel
        rw [unclosed]
        rfl

end Header

namespace Label

def turn (state : State) (gap : Gap) (token : Token) : Except Fault (Step State Span) :=
  match state with
  | .clause clause =>
    if token.tag = .endOfInput then do
      clause.nesting.ensureClosed
      throw (token.unexpected .colon)
    else clause.step token
  | state => step state gap token

def tokenLoop : TokenLoop State Span := ⟨.keyword, turn⟩

theorem unrolls : tokenLoop.Unrolls recognizer := by
  refine ⟨rfl, ?_, ?_⟩
  · intro state gap token inside
    cases state with
    | clause clause => exact if_neg inside
    | _ => rfl
  · intro state gap size
    cases state with
    | clause clause =>
      simp only [tokenLoop, turn, recognizer, atEnd]
      cases clause.nesting.ensureClosed <;> rfl
    | _ => rfl

end Label

namespace Arguments

def turn (state : State) (gap : Gap) (token : Token) : Except Fault (Step State Span) :=
  if token.tag = .endOfInput then do
    state.nesting.ensureClosed
    return .done (state.span token.span.start)
  else step state gap token

def tokenLoop : TokenLoop State Span := ⟨⟨.empty, none⟩, turn⟩

theorem unrolls : tokenLoop.Unrolls recognizer := by
  refine ⟨rfl, fun _ _ _ inside => if_neg inside, ?_⟩
  intro state gap size
  simp only [tokenLoop, turn, recognizer, atEnd]
  cases state.nesting.ensureClosed <;> rfl

end Arguments

namespace Expression

def turn (state : State) (gap : Gap) (token : Token) : Except Fault (Step State Span) :=
  if state.nesting.isTopLevel then step state gap token
  else do
    if token.tag = .endOfInput then state.nesting.ensureClosed
    .more <$> state.consume token

def tokenLoop : TokenLoop State Span := ⟨.start, turn⟩

theorem Phase.settle_gap {phase : Phase} (incomplete : phase.isComplete = false) (previous : Tag)
    (gap other : Gap) (token : Token) :
    phase.settle previous gap token = phase.settle previous other token := by
  cases phase with
  | operand => rw [settle_operand, settle_operand]
  | selector => rw [settle_selector, settle_selector]
  | members inSignature => rw [settle_members, settle_members]
  | afterOperand | typeLiteral inSignature => cases incomplete

private theorem step_endOfInput {state : State} (topLevel : state.nesting.isTopLevel) (gap : Gap)
    (size : Nat) : step state gap (.endOfInput size) = Step.done <$> atEnd state size := by
  rw [step, if_pos topLevel, atEnd, Nesting.ensureClosed_of_isTopLevel topLevel]
  cases complete : state.phase.isComplete with
  | true =>
    have stops (gap : Gap) : state.phase.settle state.previous gap (.endOfInput size) = .ok .stop :=
      Phase.stop_of_isComplete complete state.previous gap (.inr rfl)
    rw [stops gap, stops .closed]
    rfl
  | false =>
    rw [Phase.settle_gap complete state.previous gap .closed]
    cases settled : state.phase.settle state.previous .closed (.endOfInput size) with
    | error fault => rfl
    | ok outcome => exact absurd settled (Phase.fails_atEnd complete _ _ size outcome)

theorem unrolls : tokenLoop.Unrolls recognizer := by
  refine ⟨rfl, ?_, ?_⟩
  · intro state gap token inside
    simp only [tokenLoop, turn, if_neg inside, recognizer]
    split
    · rfl
    · next nested => rw [step, if_neg nested]
  · intro state gap size
    simp only [tokenLoop, turn, recognizer]
    cases topLevel : state.nesting.isTopLevel with
    | true => exact step_endOfInput topLevel gap size
    | false =>
      obtain ⟨fault, unclosed⟩ := Nesting.exists_unclosed topLevel
      rw [atEnd, unclosed]
      rfl

namespace Phase

/-- How often a token is looked at, and what it turns out to do. -/
inductive Looks (previous : Tag) (gap : Gap) (token : Token) :
    Phase → Nat → Except Fault Outcome → Prop
  | fault {phase : Phase} {fault : Fault} (reacts : phase.react previous gap token = .error fault) :
      Looks previous gap token phase 1 (.error fault)
  | settled {phase : Phase} {outcome : Outcome}
      (reacts : phase.react previous gap token = .ok (.settled outcome)) :
      Looks previous gap token phase 1 (.ok outcome)
  | again {phase next : Phase} {count : Nat} {outcome : Except Fault Outcome}
      (reacts : phase.react previous gap token = .ok (.again next))
      (more : Looks previous gap token next count outcome) :
      Looks previous gap token phase (count + 1) outcome

variable {previous : Tag} {gap : Gap} {token : Token} {phase next : Phase}

theorem settles_of_again (again : phase.react previous gap token = .ok (.again next)) (other : Phase) :
    next.react previous gap token ≠ .ok (.again other) := by
  obtain ⟨rfl, -⟩ := react_eq_again again
  intro also
  obtain ⟨-, inSignature, same⟩ := react_eq_again also
  cases same

theorem looks_once (never : ∀ next, phase.react previous gap token ≠ .ok (.again next)) :
    Looks previous gap token phase 1 (phase.settle previous gap token) := by
  rw [settle_eq]
  cases reacts : phase.react previous gap token with
  | error fault => exact .fault reacts
  | ok reaction =>
    cases reaction with
    | settled outcome => exact .settled reacts
    | again next => exact absurd reacts (never next)

theorem exists_looks (previous : Tag) (gap : Gap) (token : Token) (phase : Phase) :
    ∃ count ≤ 2, Looks previous gap token phase count (phase.settle previous gap token) := by
  by_cases again : ∃ next, phase.react previous gap token = .ok (.again next)
  · obtain ⟨next, again⟩ := again
    rw [settle_eq, again]
    exact ⟨2, Nat.le_refl 2, .again again (looks_once (settles_of_again again))⟩
  · exact ⟨1, Nat.le_succ 1, looks_once fun next same => again ⟨next, same⟩⟩

end Phase

end Expression

namespace Construct

/-- The loop of the construct asks for these items and ends with the outcome. -/
def Asks (construct : Construct) (items : List (Except Fault Token)) (outcome : Except Fault Span) :
    Prop :=
  match construct with
  | .ifHeader => (Header.tokenLoop .kwIf).Runs items outcome
  | .forHeader => (Header.tokenLoop .kwFor).Runs items outcome
  | .switchHeader => (Header.tokenLoop .kwSwitch).Runs items outcome
  | .label => Label.tokenLoop.Runs items outcome
  | .expression => Expression.tokenLoop.Runs items outcome
  | .arguments => Arguments.tokenLoop.Runs items outcome

variable {construct : Construct} {source : String} {stream after : TokenStream}
  {items : List (Except Fault Token)}

/-- The loop of a construct has asked a stream for its items and stopped. It has
not asked again after the end of the source, which the stream would go on giving,
and there is nothing else that it could have done. -/
structure Stops (construct : Construct) (source : String) (stream : TokenStream)
    (items : List (Except Fault Token)) (after : TokenStream) : Prop where
  given : Calls TokenStream.Gives stream items after
  asks : construct.Asks items (construct.extract source)
  few : items.length ≤ (tokens source).length + 1
  before : ∀ token, .ok token ∈ items.dropLast → token.tag ≠ .endOfInput
  stays : ∀ token, .ok token ∈ items → token.tag = .endOfInput → after.Gives (.ok token) after
  alone : ∀ others outcome last, Calls TokenStream.Gives stream others last →
    construct.Asks others outcome → others = items ∧ outcome = construct.extract source

theorem Asks.unique {others : List (Except Fault Token)} {outcome other : Except Fault Span}
    {last : TokenStream} (asks : construct.Asks items outcome)
    (given : Calls TokenStream.Gives stream items after) (also : construct.Asks others other)
    (gets : Calls TokenStream.Gives stream others last) : others = items ∧ other = outcome := by
  cases construct <;> exact TokenLoop.Ends.unique asks given also gets

private theorem tag_ne_endOfInput_of_mem_tokens {token : Token} (member : token ∈ tokens source) :
    token.tag ≠ .endOfInput := by
  obtain ⟨_, _, lexeme, _, -, first, same⟩ := first?_of_mem_tokens member
  rw [same]
  exact Lexeme.tag_ne_endOfInput first

theorem exists_asks (construct : Construct) (fits : source.utf8ByteSize ≤ maxOffset) :
    ∃ items, construct.Asks items (construct.extract source) ∧
      items <+: (tokens source).map Token.check ++ [.ok (.endOfInput source.utf8ByteSize)] := by
  have runs {σ : Type} {loop : TokenLoop σ Span} {machine : Recognizer σ Span}
      (unrolls : loop.Unrolls machine) : ∃ items, loop.Runs items (machine.recognize source) ∧
        items <+: (tokens source).map Token.check ++ [.ok (.endOfInput source.utf8ByteSize)] := by
    rw [machine.recognize_of_fits fits, ← unrolls.start]
    obtain ⟨items, front, ends⟩ := unrolls.exists_ends source.utf8ByteSize
      (fun _ => tag_ne_endOfInput_of_mem_tokens) (loop.start, .closed)
    exact ⟨items, ends, front⟩
  cases construct with
  | ifHeader => exact runs (Header.unrolls .kwIf)
  | forHeader => exact runs (Header.unrolls .kwFor)
  | switchHeader => exact runs (Header.unrolls .kwSwitch)
  | label => exact runs Label.unrolls
  | expression => exact runs Expression.unrolls
  | arguments => exact runs Arguments.unrolls

private theorem not_endOfInput_of_mem {token : Token}
    (member : .ok token ∈ (tokens source).map Token.check) : token.tag ≠ .endOfInput := by
  obtain ⟨other, inside, checked⟩ := List.mem_map.mp member
  obtain ⟨-, rfl⟩ := Token.check_eq_ok.mp checked
  exact tag_ne_endOfInput_of_mem_tokens inside

theorem exists_stops (construct : Construct) (fits : source.utf8ByteSize ≤ maxOffset) :
    ∃ items after, construct.Stops source ⟨source, tokens source, false⟩ items after := by
  obtain ⟨items, asks, front⟩ := construct.exists_asks fits
  have given : Calls TokenStream.Gives ⟨source, tokens source, false⟩ items _ :=
    TokenLoop.calls_gives front
  have few := front.length_le
  rw [List.length_append, List.length_map, List.length_singleton] at few
  refine ⟨items, _, given, asks, few, ?_, ?_, fun _ _ _ gets also => asks.unique given also gets⟩
  · intro token member
    apply @not_endOfInput_of_mem source
    rcases List.prefix_concat_iff.mp front with rfl | front
    · rwa [List.dropLast_concat] at member
    · exact front.subset (List.dropLast_subset items member)
  · intro token member ended
    rcases List.prefix_concat_iff.mp front with rfl | front
    · obtain rfl : token = .endOfInput source.utf8ByteSize := by
        rcases List.mem_append.mp member with member | member
        · exact absurd ended (not_endOfInput_of_mem member)
        · exact Except.ok.inj (List.mem_singleton.mp member)
      have whole : (tokens source).length ≤ ((tokens source).map Token.check ++
          [Except.ok (Token.endOfInput source.utf8ByteSize)]).length := by simp
      rw [List.drop_eq_nil_of_le whole]
      rfl
    · exact absurd ended (not_endOfInput_of_mem (front.subset member))

end Construct

/-- Every loop stops, and asks for nothing behind the end of the source. A token
of an expression at top level is looked at once, or once more behind a type. -/
theorem extract_stops (construct : Construct) (source : String) :
    ((∃ fault, TokenStream.ofSource source = .error fault ∧
        construct.extract source = .error fault) ∨
      ∃ stream items after, TokenStream.ofSource source = .ok stream ∧
        construct.Stops source stream items after) ∧
    ∀ previous gap token, ∀ phase : Expression.Phase,
      (∃ count ≤ 2, Expression.Phase.Looks previous gap token phase count
        (phase.settle previous gap token)) ∧
      ∀ next, phase.react previous gap token = .ok (.again next) →
        (∃ inSignature, phase = .typeLiteral inSignature) ∧
          ∀ other, next.react previous gap token ≠ .ok (.again other) := by
  refine ⟨?_, fun previous gap token phase => ⟨?_, ?_⟩⟩
  · rcases Nat.lt_or_ge maxOffset source.utf8ByteSize with large | fits
    · have none : TokenStream.ofSource source = .error (.sourceTooLarge source.utf8ByteSize) :=
        if_pos large
      refine .inl ⟨_, none, ?_⟩
      cases construct <;> exact congrArg (· >>= _) none
    · obtain ⟨items, after, stops⟩ := construct.exists_stops fits
      exact .inr ⟨_, items, after, if_neg (Nat.not_lt.mpr fits), stops⟩
  · exact Expression.Phase.exists_looks previous gap token phase
  · intro next again
    exact ⟨(Expression.Phase.react_eq_again again).2, Expression.Phase.settles_of_again again⟩

/-- At the end of the source a channel type is looked behind, and is complete. -/
theorem extract_stops_type :
    (∃ stream items after, TokenStream.ofSource "chan T" = .ok stream ∧
      Construct.expression.Stops "chan T" stream items after) ∧
    (Expression.Phase.typeLiteral false).react .identifier .closed (.endOfInput 6) =
      .ok (.again .afterOperand) ∧
    ∀ other, Expression.Phase.afterOperand.react .identifier .closed (.endOfInput 6) ≠
      .ok (.again other) := by
  obtain ⟨settles, looks⟩ := extract_stops .expression "chan T"
  have again : (Expression.Phase.typeLiteral false).react .identifier .closed (.endOfInput 6) =
      .ok (.again .afterOperand) := rfl
  refine ⟨?_, again, ((looks _ _ _ _).2 _ again).2⟩
  rcases settles with ⟨fault, large, -⟩ | stops
  · cases large
  · exact stops

end FragmentBounds
