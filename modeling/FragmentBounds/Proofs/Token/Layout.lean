import FragmentBounds.Recognizer

/-! Where the tokens of a source lie. They follow one another without a gap
from the start of the source to its end, and none is empty. -/
namespace FragmentBounds

inductive Laid : Nat → List Token → Nat → Prop
  | nil (offset : Nat) : Laid offset [] offset
  | cons {start stop : Nat} {token : Token} {pending : List Token} (starts : token.span.start = start)
      (nonempty : token.span.start < token.span.stop) (more : Laid token.span.stop pending stop) :
      Laid start (token :: pending) stop

theorem laid_append {start stop : Nat} {front back : List Token} :
    Laid start (front ++ back) stop ↔ ∃ middle, Laid start front middle ∧ Laid middle back stop := by
  constructor
  · intro laid
    induction front generalizing start with
    | nil => exact ⟨start, .nil start, laid⟩
    | cons token front ih =>
      cases laid with
      | cons starts nonempty more =>
        obtain ⟨middle, first, second⟩ := ih more
        exact ⟨middle, .cons starts nonempty first, second⟩
  · rintro ⟨middle, first, second⟩
    induction first with
    | nil => exact second
    | cons starts nonempty _ ih => exact .cons starts nonempty (ih second)

theorem Laid.le {start stop : Nat} {tokens : List Token} (laid : Laid start tokens stop) :
    start ≤ stop := by
  induction laid with
  | nil => exact Nat.le_refl _
  | cons _ _ _ ih => omega

theorem Laid.bounds {start stop : Nat} {tokens : List Token} (laid : Laid start tokens stop)
    {token : Token} (member : token ∈ tokens) :
    start ≤ token.span.start ∧ token.span.start < token.span.stop ∧ token.span.stop ≤ stop := by
  induction laid with
  | nil => simp at member
  | cons starts nonempty more ih =>
    have forward := more.le
    rcases List.mem_cons.mp member with rfl | member
    · exact ⟨Nat.le_of_eq starts.symm, nonempty, forward⟩
    · have := ih member
      omega

theorem Laid.start_eq {start stop : Nat} {token : Token} {pending : List Token}
    (laid : Laid start (token :: pending) stop) : start = token.span.start := by
  cases laid with
  | cons starts _ _ => exact starts.symm

theorem Laid.stop_unique {start stop other : Nat} {tokens : List Token}
    (laid : Laid start tokens stop) (also : Laid start tokens other) : stop = other := by
  induction laid with
  | nil =>
    cases also
    rfl
  | cons _ _ _ ih =>
    cases also with
    | cons _ _ more => exact ih more

theorem laid_tokensFrom (start : Nat) {lexemes : List Lexeme}
    (nonempty : ∀ lexeme ∈ lexemes, lexeme.text ≠ []) :
    Laid start (tokensFrom start lexemes)
      (start + Text.byteSize (lexemes.flatMap Lexeme.text)) := by
  induction lexemes generalizing start with
  | nil => exact .nil start
  | cons lexeme lexemes ih =>
    have more := ih (start + lexeme.byteSize) fun other member =>
      nonempty other (List.mem_cons_of_mem _ member)
    have positive : 0 < lexeme.byteSize := by
      have full : lexeme.byteSize ≠ 0 := fun none =>
        nonempty lexeme (by simp) (Text.byteSize_eq_zero.mp none)
      omega
    rw [List.flatMap_cons, Text.byteSize_append, ← Nat.add_assoc]
    exact .cons rfl (by simp only [Token.ofLexeme]; omega) more

theorem laid_tokens (source : String) : Laid 0 (tokens source) source.utf8ByteSize := by
  have laid := laid_tokensFrom 0 fun lexeme (member : lexeme ∈ lexemes source.toList) =>
    text_ne_nil_of_mem_lexemes member
  rwa [flatMap_text_lexemes, Text.byteSize_toList, Nat.zero_add] at laid

theorem tokensFrom_eq_cons {start : Nat} {lexemes : List Lexeme} {token : Token}
    {pending : List Token} (cut : tokensFrom start lexemes = token :: pending) :
    ∃ lexeme more, lexemes = lexeme :: more ∧ token = .ofLexeme start lexeme ∧
      pending = tokensFrom (start + lexeme.byteSize) more := by
  cases lexemes with
  | nil => cases cut
  | cons lexeme more =>
    obtain ⟨rfl, rfl⟩ := List.cons.inj cut
    exact ⟨lexeme, more, rfl, rfl, rfl⟩

theorem tokensFrom_eq_append {start : Nat} {lexemes : List Lexeme} {front back : List Token}
    (cut : tokensFrom start lexemes = front ++ back) :
    ∃ before after, lexemes = before ++ after ∧ front = tokensFrom start before ∧
      back = tokensFrom (start + Text.byteSize (before.flatMap Lexeme.text)) after := by
  induction front generalizing start lexemes with
  | nil => exact ⟨[], lexemes, rfl, rfl, by simpa using cut.symm⟩
  | cons token front ih =>
    obtain ⟨lexeme, more, rfl, rfl, pending⟩ := tokensFrom_eq_cons cut
    obtain ⟨before, after, rfl, rfl, rfl⟩ := ih pending.symm
    exact ⟨lexeme :: before, after, rfl, rfl, by simp [Lexeme.byteSize, Nat.add_assoc]⟩

/-- A character of the source starts at the offset, or the source ends there. -/
def IsCharBoundary (source : String) (offset : Nat) : Prop :=
  ∃ before after, source.toList = before ++ after ∧ Text.byteSize before = offset

/-- A token of the source starts at the offset, or the source ends there. -/
def IsTokenBoundary (source : String) (offset : Nat) : Prop :=
  offset = source.utf8ByteSize ∨ ∃ token ∈ tokens source, token.span.start = offset

theorem isCharBoundary_iff {source : String} {offset : Nat} :
    IsCharBoundary source offset ↔ (Text.splitBytes? offset source.toList).isSome := by
  rw [Option.isSome_iff_exists]
  constructor
  · rintro ⟨before, after, same, size⟩
    exact ⟨(before, after), Text.splitBytes?_eq_some.mpr ⟨same, size⟩⟩
  · rintro ⟨⟨before, after⟩, cut⟩
    obtain ⟨same, size⟩ := Text.splitBytes?_eq_some.mp cut
    exact ⟨before, after, same, size⟩

instance (source : String) (offset : Nat) : Decidable (IsCharBoundary source offset) :=
  decidable_of_iff _ isCharBoundary_iff.symm

instance (source : String) (offset : Nat) : Decidable (IsTokenBoundary source offset) :=
  inferInstanceAs (Decidable (_ ∨ _))

theorem IsCharBoundary.le_size {source : String} {offset : Nat}
    (boundary : IsCharBoundary source offset) : offset ≤ source.utf8ByteSize := by
  obtain ⟨before, after, same, rfl⟩ := boundary
  rw [← Text.byteSize_toList, same, Text.byteSize_append]
  omega

theorem isTokenBoundary_start {source : String} {token : Token} (member : token ∈ tokens source) :
    IsTokenBoundary source token.span.start := .inr ⟨token, member, rfl⟩

theorem isTokenBoundary_stop {source : String} {token : Token} (member : token ∈ tokens source) :
    IsTokenBoundary source token.span.stop := by
  obtain ⟨front, back, cut⟩ := List.append_of_mem member
  have laid := laid_tokens source
  rw [cut, laid_append] at laid
  obtain ⟨_, -, laid⟩ := laid
  cases laid with
  | cons _ _ more =>
    cases back with
    | nil =>
      have ended := more.stop_unique (.nil _)
      exact .inl ended.symm
    | cons next back => exact .inr ⟨next, by simp [cut], more.start_eq.symm⟩

theorem IsTokenBoundary.isCharBoundary {source : String} {offset : Nat}
    (boundary : IsTokenBoundary source offset) : IsCharBoundary source offset := by
  rcases boundary with rfl | ⟨token, member, rfl⟩
  · exact ⟨source.toList, [], by simp, Text.byteSize_toList source⟩
  · obtain ⟨front, back, cut⟩ := List.append_of_mem member
    obtain ⟨before, after, parts, -, place⟩ := tokensFrom_eq_append cut
    refine ⟨before.flatMap Lexeme.text, after.flatMap Lexeme.text, ?_, ?_⟩
    · rw [← List.flatMap_append, ← parts, flatMap_text_lexemes]
    · obtain ⟨lexeme, more, -, rfl, -⟩ := tokensFrom_eq_cons place.symm
      simp [Token.ofLexeme]

end FragmentBounds
