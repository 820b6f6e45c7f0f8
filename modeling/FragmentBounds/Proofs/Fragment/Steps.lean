import FragmentBounds.Construct
import FragmentBounds.Fragment.TypeSwitch
import FragmentBounds.Proofs.Bracket.Nesting
import FragmentBounds.Proofs.Recognizer.Reading
import FragmentBounds.Proofs.Fragment.Phases

/-! What one step of each machine can do, and what it can find fault with. -/
namespace FragmentBounds

section Except

variable {ε α β : Type} {first : Except ε α} {next : α → Except ε β}

theorem bind_eq_ok {result : β} :
    (first >>= next) = .ok result ↔ ∃ value, first = .ok value ∧ next value = .ok result := by
  cases first with
  | error fault => exact ⟨nofun, nofun⟩
  | ok value => exact ⟨fun same => ⟨value, rfl, same⟩, fun ⟨_, same, more⟩ => by cases same; exact more⟩

theorem bind_eq_error {fault : ε} :
    (first >>= next) = .error fault ↔
      first = .error fault ∨ ∃ value, first = .ok value ∧ next value = .error fault := by
  cases first with
  | error other =>
    constructor
    · intro same
      exact .inl (congrArg _ (Except.error.inj same))
    · rintro (same | ⟨_, none, _⟩)
      · exact congrArg _ (Except.error.inj same)
      · cases none
  | ok value =>
    refine ⟨fun same => .inr ⟨value, rfl, same⟩, ?_⟩
    rintro (none | ⟨_, same, more⟩)
    · cases none
    · cases same
      exact more

theorem map_eq_ok {f : α → β} {result : β} :
    f <$> first = .ok result ↔ ∃ value, first = .ok value ∧ f value = result := by
  cases first with
  | error fault => exact ⟨nofun, nofun⟩
  | ok value =>
    refine ⟨fun same => ⟨value, rfl, Except.ok.inj same⟩, ?_⟩
    rintro ⟨_, same, rfl⟩
    cases same
    rfl

theorem map_eq_error {f : α → β} {fault : ε} : f <$> first = .error fault ↔ first = .error fault := by
  cases first with
  | error other => exact ⟨fun same => congrArg _ (Except.error.inj same), fun same => by rw [same]; rfl⟩
  | ok value => exact ⟨nofun, nofun⟩

end Except

namespace Arguments

theorem step_more {state next : State} {gap : Gap} {token : Token}
    (stepped : recognizer.step state gap token = .ok (.more next)) :
    state.nesting.track token = .ok next.nesting ∧
      next.fragment = extendFragment state.fragment token := by
  simp only [recognizer, step] at stepped
  split at stepped
  · cases stepped
  · obtain ⟨nesting, tracked, same⟩ := bind_eq_ok.mp stepped
    cases same
    exact ⟨tracked, rfl⟩

theorem step_done {state : State} {gap : Gap} {token : Token} {span : Span}
    (stepped : recognizer.step state gap token = .ok (.done span)) :
    state.nesting.isTopLevel ∧ token.tag = .closing .brace ∧ span = state.span token.span.start := by
  simp only [recognizer, step] at stepped
  split at stepped
  · next ends =>
    cases stepped
    exact ⟨ends.1, ends.2, rfl⟩
  · obtain ⟨nesting, tracked, same⟩ := bind_eq_ok.mp stepped
    cases same

theorem step_error {state : State} {gap : Gap} {token : Token} {fault : Fault}
    (stepped : recognizer.step state gap token = .error fault) :
    state.nesting.Refuses token fault := by
  simp only [recognizer, step] at stepped
  split at stepped
  · cases stepped
  · rcases bind_eq_error.mp stepped with failed | ⟨nesting, tracked, same⟩
    · exact .bracket failed
    · cases same

theorem atEnd_error {state : State} {size : Nat} {fault : Fault}
    (ended : atEnd state size = .error fault) : state.nesting.Unfinished size fault := by
  rcases bind_eq_error.mp ended with failed | ⟨_, _, same⟩
  · exact .unclosed failed
  · cases same

theorem atEnd_ok {state : State} {size : Nat} {span : Span} (ended : atEnd state size = .ok span) :
    state.nesting.isTopLevel ∧ span = state.span size := by
  obtain ⟨_, closed, same⟩ := bind_eq_ok.mp ended
  cases same
  exact ⟨(Nesting.ensureClosed_eq_ok _).mp closed, rfl⟩

end Arguments

namespace TypeSwitch

theorem step_more {state next : State} {gap : Gap} {token : Token}
    (stepped : recognizer.step state gap token = .ok (.more next)) :
    state.nesting.track token = .ok next.nesting ∧
      next.progress = state.progress.next state.nesting.isTopLevel token := by
  obtain ⟨nesting, tracked, stepped⟩ := bind_eq_ok.mp stepped
  split at stepped
  · cases stepped
  · cases stepped
    exact ⟨tracked, rfl⟩

theorem step_done_iff {state : State} {gap : Gap} {token : Token} {found : Bool} :
    recognizer.step state gap token = .ok (.done found) ↔
      (∃ next, state.nesting.track token = .ok next) ∧ state.progress = .keyword ∧
        token.tag = .closing .paren ∧ found = true := by
  constructor
  · intro stepped
    obtain ⟨next, tracked, stepped⟩ := bind_eq_ok.mp stepped
    split at stepped
    · next closes =>
      cases stepped
      exact ⟨⟨next, tracked⟩, closes.1, closes.2, rfl⟩
    · cases stepped
  · rintro ⟨⟨next, tracked⟩, spelled, closes, rfl⟩
    exact bind_eq_ok.mpr ⟨next, tracked, if_pos ⟨spelled, closes⟩⟩

theorem step_of_track_error {state : State} (gap : Gap) {token : Token} {fault : Fault}
    (failed : state.nesting.track token = .error fault) :
    recognizer.step state gap token = .error fault :=
  bind_eq_error.mpr (.inl failed)

theorem atEnd_ok {state : State} {size : Nat} {found : Bool}
    (ended : recognizer.atEnd state size = .ok found) : state.nesting.isTopLevel ∧ found = false := by
  obtain ⟨_, closed, same⟩ := bind_eq_ok.mp ended
  exact ⟨(Nesting.ensureClosed_eq_ok _).mp closed, (Except.ok.inj same).symm⟩

theorem track_of_step_error {state : State} {gap : Gap} {token : Token} {fault : Fault}
    (stepped : recognizer.step state gap token = .error fault) :
    state.nesting.track token = .error fault := by
  rcases bind_eq_error.mp stepped with tracked | ⟨nesting, tracked, stepped⟩
  · exact tracked
  · split at stepped <;> cases stepped

theorem ensureClosed_of_atEnd_error {state : State} {size : Nat} {fault : Fault}
    (ended : recognizer.atEnd state size = .error fault) :
    state.nesting.ensureClosed = .error fault := by
  rcases bind_eq_error.mp ended with unclosed | ⟨_, _, same⟩
  · exact unclosed
  · cases same

end TypeSwitch

namespace Label

def State.nesting : State → Nesting
  | .clause inner => inner.nesting
  | _ => .empty

theorem step_more {state next : State} {gap : Gap} {token : Token}
    (stepped : recognizer.step state gap token = .ok (.more next)) :
    (state = .keyword ∧ token.keyword? = some .kwDefault ∧ next = .colon token.span) ∨
      (state = .keyword ∧ token.keyword? = some .kwCase ∧
        next = .clause ⟨token.span, .empty, true⟩) ∨
      ∃ clause nesting, state = .clause clause ∧ clause.nesting.track token = .ok nesting ∧
        next = .clause { clause with nesting := nesting, empty := false } := by
  cases state with
  | keyword =>
    simp only [recognizer, step] at stepped
    split at stepped
    · next keyword =>
      cases stepped
      exact .inl ⟨rfl, keyword, rfl⟩
    · next keyword =>
      cases stepped
      exact .inr (.inl ⟨rfl, keyword, rfl⟩)
    · cases stepped
  | colon keyword =>
    simp only [recognizer, step] at stepped
    split at stepped <;> cases stepped
  | clause clause =>
    simp only [recognizer, step, Clause.step] at stepped
    split at stepped
    · split at stepped <;> cases stepped
    · split at stepped
      · cases stepped
      · obtain ⟨nesting, tracked, same⟩ := bind_eq_ok.mp stepped
        cases same
        exact .inr (.inr ⟨clause, nesting, rfl, tracked, rfl⟩)

theorem step_done {state : State} {gap : Gap} {token : Token} {span : Span}
    (stepped : recognizer.step state gap token = .ok (.done span)) :
    token.tag = .colon ∧ ((∃ keyword, state = .colon keyword ∧ span = keyword.merge token.span) ∨
      ∃ clause, state = .clause clause ∧ clause.nesting.isTopLevel ∧ clause.empty = false ∧
        span = clause.keyword.merge token.span) := by
  cases state with
  | keyword =>
    simp only [recognizer, step] at stepped
    split at stepped <;> cases stepped
  | colon keyword =>
    simp only [recognizer, step] at stepped
    split at stepped
    · next colon =>
      cases stepped
      exact ⟨colon, .inl ⟨keyword, rfl, rfl⟩⟩
    · cases stepped
  | clause clause =>
    simp only [recognizer, step, Clause.step] at stepped
    split at stepped
    · next ends =>
      split at stepped
      · cases stepped
      · next full =>
        cases stepped
        exact ⟨ends.2, .inr ⟨clause, rfl, ends.1, by simpa using full, rfl⟩⟩
    · split at stepped
      · cases stepped
      · obtain ⟨nesting, tracked, same⟩ := bind_eq_ok.mp stepped
        cases same

theorem step_error_cases {state : State} {gap : Gap} {token : Token} {fault : Fault}
    (stepped : recognizer.step state gap token = .error fault) :
    state.nesting.track token = .error fault ∨ ∃ what, fault = token.unexpected what ∧
      (state = .keyword ∧ what = .caseLabel ∨ what = .colon ∨ what = .expression) := by
  cases state with
  | keyword =>
    simp only [recognizer, step] at stepped
    split at stepped <;> cases stepped
    exact .inr ⟨.caseLabel, rfl, .inl ⟨rfl, rfl⟩⟩
  | colon keyword =>
    simp only [recognizer, step] at stepped
    split at stepped <;> cases stepped
    exact .inr ⟨.colon, rfl, .inr (.inl rfl)⟩
  | clause clause =>
    simp only [recognizer, step, Clause.step] at stepped
    split at stepped
    · split at stepped <;> cases stepped
      exact .inr ⟨.expression, rfl, .inr (.inr rfl)⟩
    · split at stepped
      · cases stepped
        exact .inr ⟨.colon, rfl, .inr (.inl rfl)⟩
      · rcases bind_eq_error.mp stepped with failed | ⟨nesting, tracked, same⟩
        · exact .inl failed
        · cases same

theorem step_error {state : State} {gap : Gap} {token : Token} {fault : Fault}
    (stepped : recognizer.step state gap token = .error fault) :
    state.nesting.Refuses token fault := by
  rcases step_error_cases stepped with failed | ⟨what, rfl, -⟩
  · exact .bracket failed
  · exact .unexpected what

theorem atEnd_error {state : State} {size : Nat} {fault : Fault}
    (ended : atEnd state size = .error fault) : state.nesting.Unfinished size fault := by
  cases state with
  | keyword =>
    cases ended
    exact .unexpected rfl .caseLabel
  | colon keyword =>
    cases ended
    exact .unexpected rfl .colon
  | clause clause =>
    rcases bind_eq_error.mp ended with failed | ⟨_, closed, same⟩
    · exact .unclosed failed
    · cases same
      exact .unexpected ((Nesting.ensureClosed_eq_ok _).mp closed) .colon

theorem atEnd_ne_ok (state : State) (size : Nat) (span : Span) : atEnd state size ≠ .ok span := by
  intro ended
  cases state with
  | keyword | colon keyword => cases ended
  | clause clause =>
    obtain ⟨_, _, same⟩ := bind_eq_ok.mp ended
    cases same

end Label

namespace Header

def State.nesting : State → Nesting
  | .keyword => .empty
  | .clause inner => inner.nesting

theorem consume_eq {clause : Clause} {token : Token} {result : Step State Span} :
    clause.consume token = .ok result ↔ ∃ nesting, clause.nesting.track token = .ok nesting ∧
      result = .more (.clause { clause with
        nesting := nesting
        fragment := extendFragment clause.fragment token
        afterOperand := endsOperand token }) := by
  rw [Clause.consume, bind_eq_ok]
  constructor
  · rintro ⟨nesting, tracked, same⟩
    exact ⟨nesting, tracked, (Except.ok.inj same).symm⟩
  · rintro ⟨nesting, tracked, rfl⟩
    exact ⟨nesting, tracked, rfl⟩

theorem step_keyword {keyword : Keyword} {gap : Gap} {token : Token} {result : Step State Span}
    (stepped : (recognizer keyword).step .keyword gap token = .ok result) :
    token.keyword? = some keyword ∧ result = .more (.clause .start) := by
  simp only [recognizer, step] at stepped
  split at stepped
  · next spelled =>
    cases stepped
    exact ⟨spelled, rfl⟩
  · cases stepped

theorem Clause.finish_cases (clause : Clause) (keyword : Keyword) (brace : Token) :
    (∃ span, clause.finish keyword brace = .ok (.done span)) ∨
      clause.finish keyword brace = .error (brace.unexpected .condition) := by
  unfold Clause.finish
  split
  · exact .inl ⟨_, rfl⟩
  · split
    · exact .inr rfl
    · exact .inl ⟨_, rfl⟩

theorem step_more {keyword : Keyword} {clause : Clause} {gap : Gap} {token : Token} {next : State}
    (stepped : (recognizer keyword).step (.clause clause) gap token = .ok (.more next)) :
    ∃ after, next = .clause after ∧ clause.nesting.track token = .ok after.nesting ∧
      after.fragment = extendFragment clause.fragment token ∧
      after.afterOperand = endsOperand token ∧
      (clause.nesting.isTopLevel = false → after.body = clause.body) := by
  have consumed : ∃ body, { clause with body := body }.consume token = .ok (.more next) ∧
      (clause.nesting.isTopLevel = false → body = clause.body) := by
    simp only [recognizer, step, Clause.step] at stepped
    split at stepped
    · next topLevel =>
      have outside (body : Option Body) : clause.nesting.isTopLevel = false → body = clause.body :=
        fun nested => by simp [topLevel] at nested
      split at stepped
      · split at stepped
        · rcases clause.finish_cases keyword token with ⟨span, same⟩ | same
          · rw [same] at stepped
            cases stepped
          · rw [same] at stepped
            cases stepped
        · exact ⟨_, stepped, outside _⟩
      · exact ⟨_, stepped, outside _⟩
    · exact ⟨clause.body, stepped, fun _ => rfl⟩
  obtain ⟨body, consumed, kept⟩ := consumed
  obtain ⟨nesting, tracked, same⟩ := consume_eq.mp consumed
  cases same
  exact ⟨_, rfl, tracked, rfl, rfl, kept⟩

theorem step_done {keyword : Keyword} {clause : Clause} {gap : Gap} {token : Token} {span : Span}
    (stepped : (recognizer keyword).step (.clause clause) gap token = .ok (.done span)) :
    clause.nesting.isTopLevel ∧ token.tag = .opening .brace ∧ clause.body = none ∧
      clause.finish keyword token = .ok (.done span) := by
  simp only [recognizer, step, Clause.step] at stepped
  split at stepped
  · next topLevel =>
    split at stepped
    · next brace =>
      split at stepped
      · next none => exact ⟨topLevel, brace, none, stepped⟩
      · obtain ⟨nesting, tracked, same⟩ := consume_eq.mp stepped
        cases same
    · obtain ⟨nesting, tracked, same⟩ := consume_eq.mp stepped
      cases same
  · obtain ⟨nesting, tracked, same⟩ := consume_eq.mp stepped
    cases same

theorem finish_eq_ok {clause : Clause} {keyword : Keyword} {brace : Token} {span : Span} :
    clause.finish keyword brace = .ok (.done span) ↔ clause.fragment = some span ∨
      (clause.fragment = none ∧ keyword ≠ .kwIf ∧ span = .point brace.span.start) := by
  unfold Clause.finish
  split
  · next covered => simp [covered]
  · next none =>
    rw [none]
    split
    · next ifKeyword => simp [ifKeyword]
    · next other => simp [other, eq_comm]

theorem step_clause_error {keyword : Keyword} {clause : Clause} {gap : Gap} {token : Token}
    {fault : Fault} (stepped : (recognizer keyword).step (.clause clause) gap token = .error fault) :
    clause.nesting.track token = .error fault ∨ fault = token.unexpected .condition := by
  have consumed (body : Option Body)
      (failed : { clause with body := body }.consume token = .error fault) :
      clause.nesting.track token = .error fault := by
    rcases bind_eq_error.mp failed with failed | ⟨nesting, tracked, same⟩
    · exact failed
    · cases same
  simp only [recognizer, step, Clause.step] at stepped
  split at stepped
  · split at stepped
    · split at stepped
      · rcases clause.finish_cases keyword token with ⟨span, same⟩ | same
        · rw [same] at stepped
          cases stepped
        · rw [same] at stepped
          exact .inr (Except.error.inj stepped).symm
      · exact .inl (consumed _ stepped)
    · exact .inl (consumed _ stepped)
  · exact .inl (consumed clause.body stepped)

theorem step_error {keyword : Keyword} {state : State} {gap : Gap} {token : Token} {fault : Fault}
    (stepped : (recognizer keyword).step state gap token = .error fault) :
    state.nesting.Refuses token fault := by
  cases state with
  | keyword =>
    simp only [recognizer, step] at stepped
    split at stepped <;> cases stepped
    exact .unexpected (.keyword keyword)
  | clause clause =>
    rcases step_clause_error stepped with failed | rfl
    · exact .bracket failed
    · exact .unexpected .condition

theorem atEnd_error {keyword : Keyword} {state : State} {size : Nat} {fault : Fault}
    (ended : atEnd keyword state size = .error fault) : state.nesting.Unfinished size fault := by
  cases state with
  | keyword =>
    cases ended
    exact .unexpected rfl (.keyword keyword)
  | clause clause =>
    rcases bind_eq_error.mp ended with failed | ⟨_, closed, same⟩
    · exact .unclosed failed
    · cases same
      exact .unexpected ((Nesting.ensureClosed_eq_ok _).mp closed) .openBrace

theorem atEnd_ne_ok (keyword : Keyword) (state : State) (size : Nat) (span : Span) :
    atEnd keyword state size ≠ .ok span := by
  intro ended
  cases state with
  | keyword => cases ended
  | clause clause =>
    obtain ⟨_, _, same⟩ := bind_eq_ok.mp ended
    cases same

end Header

namespace Expression

theorem consume_eq {state next : State} {token : Token} :
    state.consume token = .ok next ↔ ∃ nesting, state.nesting.track token = .ok nesting ∧
      next = { state with
        nesting := nesting
        fragment := extendFragment state.fragment token
        previous := token.tag } := by
  rw [State.consume, bind_eq_ok]
  constructor
  · rintro ⟨nesting, tracked, same⟩
    exact ⟨nesting, tracked, (Except.ok.inj same).symm⟩
  · rintro ⟨nesting, tracked, rfl⟩
    exact ⟨nesting, tracked, rfl⟩

theorem step_more {state next : State} {gap : Gap} {token : Token}
    (stepped : recognizer.step state gap token = .ok (.more next)) :
    state.nesting.track token = .ok next.nesting ∧
      next.fragment = extendFragment state.fragment token ∧ next.previous = token.tag ∧
      (state.nesting.isTopLevel →
        state.phase.settle state.previous gap token = .ok (.advance next.phase)) ∧
      (state.nesting.isTopLevel = false → next.phase = state.phase) := by
  simp only [recognizer, step] at stepped
  split at stepped
  · next topLevel =>
    obtain ⟨outcome, settled, stepped⟩ := bind_eq_ok.mp stepped
    cases outcome with
    | advance phase =>
      obtain ⟨after, consumed, same⟩ := map_eq_ok.mp stepped
      cases same
      obtain ⟨nesting, tracked, rfl⟩ := consume_eq.mp consumed
      exact ⟨tracked, rfl, rfl, fun _ => settled, fun nested => by simp [topLevel] at nested⟩
    | finish =>
      obtain ⟨after, consumed, same⟩ := bind_eq_ok.mp stepped
      cases same
    | stop => cases stepped
  · next nested =>
    obtain ⟨after, consumed, same⟩ := map_eq_ok.mp stepped
    cases same
    obtain ⟨nesting, tracked, rfl⟩ := consume_eq.mp consumed
    exact ⟨tracked, rfl, rfl, fun topLevel => absurd topLevel nested, fun _ => rfl⟩

theorem step_done {state : State} {gap : Gap} {token : Token} {span : Span}
    (stepped : recognizer.step state gap token = .ok (.done span)) :
    state.nesting.isTopLevel ∧
      ((state.phase.settle state.previous gap token = .ok .stop ∧
          span = state.span token.span.start) ∨
        (state.phase.settle state.previous gap token = .ok .finish ∧
          extendFragment state.fragment token = some span)) := by
  simp only [recognizer, step] at stepped
  split at stepped
  · next topLevel =>
    refine ⟨topLevel, ?_⟩
    obtain ⟨outcome, settled, stepped⟩ := bind_eq_ok.mp stepped
    cases outcome with
    | advance phase =>
      obtain ⟨after, consumed, same⟩ := map_eq_ok.mp stepped
      cases same
    | finish =>
      obtain ⟨after, consumed, same⟩ := bind_eq_ok.mp stepped
      obtain ⟨nesting, tracked, rfl⟩ := consume_eq.mp consumed
      cases same
      exact .inr ⟨settled, rfl⟩
    | stop =>
      cases stepped
      exact .inl ⟨settled, rfl⟩
  · obtain ⟨after, consumed, same⟩ := map_eq_ok.mp stepped
    cases same

theorem step_of_stop {state : State} {gap : Gap} {token : Token} {span : Span}
    (topLevel : state.nesting.isTopLevel) (covers : state.fragment = some span)
    (stopped : state.phase.settle state.previous gap token = .ok .stop) :
    recognizer.step state gap token = .ok (.done span) := by
  change step state gap token = .ok (.done span)
  rw [step, if_pos topLevel, stopped, State.span, covers]
  rfl

theorem atEnd_ok {state : State} {size : Nat} {span : Span} (ended : atEnd state size = .ok span) :
    state.nesting.isTopLevel ∧ state.phase.isComplete ∧ span = state.span size := by
  obtain ⟨_, closed, ended⟩ := bind_eq_ok.mp ended
  obtain ⟨outcome, settled, same⟩ := bind_eq_ok.mp ended
  cases same
  refine ⟨(Nesting.ensureClosed_eq_ok _).mp closed, ?_, rfl⟩
  cases complete : state.phase.isComplete with
  | true => rfl
  | false => exact absurd settled (Phase.fails_atEnd complete _ _ _ _)

theorem step_error {state : State} {gap : Gap} {token : Token} {fault : Fault}
    (stepped : recognizer.step state gap token = .error fault) :
    state.nesting.Refuses token fault := by
  have consumed (phase : Phase)
      (failed : { state with phase := phase }.consume token = .error fault) :
      state.nesting.Refuses token fault := by
    rcases bind_eq_error.mp failed with failed | ⟨nesting, tracked, same⟩
    · exact .bracket failed
    · cases same
  simp only [recognizer, step] at stepped
  split at stepped
  · next topLevel =>
    rcases bind_eq_error.mp stepped with failed | ⟨outcome, settled, stepped⟩
    · rcases Phase.settle_error failed with ⟨what, rfl⟩ | ⟨bracket, tag, rfl⟩
      · exact .unexpected what
      · exact .bracket (Nesting.track_unmatched topLevel tag)
    · cases outcome with
      | advance phase => exact consumed _ (map_eq_error.mp stepped)
      | finish =>
        rcases bind_eq_error.mp stepped with failed | ⟨after, _, same⟩
        · exact consumed state.phase failed
        · cases same
      | stop => cases stepped
  · exact consumed state.phase (map_eq_error.mp stepped)

theorem atEnd_error {state : State} {size : Nat} {fault : Fault}
    (ended : atEnd state size = .error fault) : state.nesting.Unfinished size fault := by
  rcases bind_eq_error.mp ended with failed | ⟨_, closed, ended⟩
  · exact .unclosed failed
  · rcases bind_eq_error.mp ended with failed | ⟨_, _, same⟩
    · rcases Phase.settle_error failed with ⟨what, rfl⟩ | ⟨bracket, tag, -⟩
      · exact .unexpected ((Nesting.ensureClosed_eq_ok _).mp closed) what
      · cases tag
    · cases same

end Expression

end FragmentBounds
