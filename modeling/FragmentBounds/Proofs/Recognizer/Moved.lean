import FragmentBounds.Proofs.Recognizer.Simulation

/-! The same lexemes laid from another offset on. -/
namespace FragmentBounds

def Alignment.shift (origin other : Nat) : Alignment where
  starts x y := x + other = y + origin
  stops x y := x + other = y + origin
  starts_min := by omega
  stops_max := by omega

theorem Span.Corresponds.of_shift {origin other : Nat} {left right : Span}
    (same : left.Corresponds (.shift origin other) right) :
    left.start + other = right.start + origin ∧ left.stop + other = right.stop + origin := by
  cases same with
  | covers matched => exact ⟨matched.start, matched.stop⟩
  | point aligned => exact ⟨aligned, aligned⟩

theorem aligned_ofLexeme (origin other size : Nat) (lexeme : Lexeme) :
    (Token.ofLexeme (origin + size) lexeme).Aligned (.shift origin other)
      (.ofLexeme (other + size) lexeme) := by
  have moved (d : Nat) : origin + size + d + other = other + size + d + origin := by omega
  exact ⟨⟨rfl, rfl, moved 0⟩, moved lexeme.byteSize⟩

theorem aligned_tokensFrom {alignment : Alignment} {origin other : Nat} (lexemes : List Lexeme)
    (starts : ∀ d ≤ Text.byteSize (lexemes.flatMap Lexeme.text),
      alignment.starts (origin + d) (other + d))
    (stops : ∀ d ≤ Text.byteSize (lexemes.flatMap Lexeme.text),
      alignment.stops (origin + d) (other + d)) :
    List.Forall₂ (Token.Aligned alignment) (tokensFrom origin lexemes)
      (tokensFrom other lexemes) := by
  induction lexemes generalizing origin other with
  | nil => exact .nil
  | cons lexeme lexemes ih =>
    simp only [List.flatMap_cons, Text.byteSize_append] at starts stops
    have size : lexeme.byteSize = Text.byteSize lexeme.text := rfl
    have first : (Token.ofLexeme origin lexeme).Aligned alignment (.ofLexeme other lexeme) :=
      ⟨⟨rfl, rfl, starts 0 (Nat.zero_le _)⟩, stops lexeme.byteSize (by omega)⟩
    refine .cons first (ih ?_ ?_)
    · intro d bound
      rw [Nat.add_assoc, Nat.add_assoc]
      exact starts (lexeme.byteSize + d) (by omega)
    · intro d bound
      rw [Nat.add_assoc, Nat.add_assoc]
      exact stops (lexeme.byteSize + d) (by omega)

theorem aligned_shift (origin other : Nat) (lexemes : List Lexeme) :
    List.Forall₂ (Token.Aligned (.shift origin other)) (tokensFrom origin lexemes)
      (tokensFrom other lexemes) := by
  have moved (d : Nat) : origin + d + other = other + d + origin := by omega
  exact aligned_tokensFrom lexemes (fun d _ => moved d) fun d _ => moved d

end FragmentBounds
