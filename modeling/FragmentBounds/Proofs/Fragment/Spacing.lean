import FragmentBounds.Proofs.Fragment.Respects
import FragmentBounds.Proofs.Token.Places

/-! Trivia has no part in where a fragment ends. Sources of which the
significant tokens are spelled the same have the same fragment, token for token;
an expression looks besides at whether its tokens touch and whether a line ends
between them. -/
namespace FragmentBounds

open Recognizer

theorem recognize_eq_runSpaced {σ α : Type} (machine : Recognizer σ α) {source : String}
    (fits : source.utf8ByteSize ≤ maxOffset) :
    machine.recognize source =
      machine.runSpaced source.utf8ByteSize machine.start (spacedTokens source) :=
  (recognize_of_fits machine fits).trans (run_eq_runSpaced _ _ _ _ _)

theorem Expression.runSpaced_start_gap (size : Nat) (gap other : Gap) (token : Token)
    (pending : List Spaced) :
    recognizer.runSpaced size .start (⟨gap, token⟩ :: pending) =
      recognizer.runSpaced size .start (⟨other, token⟩ :: pending) := by
  have blind (token : Token) : step .start gap token = step .start other token := by
    unfold step
    rw [State.start, Phase.settle_operand, Phase.settle_operand]
  simp only [runSpaced, recognizer, blind]

section Spacing

variable {left right : String} (fits : left.utf8ByteSize ≤ maxOffset)
  (also : right.utf8ByteSize ≤ maxOffset)
  (same : (spacedTokens left).map Spaced.spelling = (spacedTokens right).map Spaced.spelling)
include fits also same

theorem Recognizer.Respects.recognize_spacing {σ : Type} {machine : Recognizer σ Span}
    {S : Alignment → σ → σ → Prop} (respects : machine.Respects S Span.Corresponds)
    (blind : ∀ state gap other token, machine.step state gap token = machine.step state other token)
    (start : ∀ alignment, S alignment machine.start machine.start) :
    Agree (Alignment.byIndex left right).starts (Span.Corresponds (.byIndex left right))
      (machine.recognize left) (machine.recognize right) := by
  rw [recognize_eq_runSpaced machine fits, recognize_eq_runSpaced machine also]
  have aligned := aligned_byIndex same
  exact respects.runSpaced (fun _ _ => True)
    (fun state gap other token _ => blind state gap other token)
    (aligned.imp fun _ _ matched => ⟨trivial, matched⟩) (start _) (ends_byIndex same)

namespace Expression

theorem recognize_spacing (gaps : ((spacedTokens left).map Spaced.gap).tail =
      ((spacedTokens right).map Spaced.gap).tail) :
    Agree (Alignment.byIndex left right).starts (Span.Corresponds (.byIndex left right))
      (recognizer.recognize left) (recognizer.recognize right) := by
  rw [recognize_eq_runSpaced recognizer fits, recognize_eq_runSpaced recognizer also]
  have start : State.Matches (.byIndex left right) .start .start := ⟨rfl, .empty, .none, rfl⟩
  have aligned := aligned_byIndex same
  have ends := ends_byIndex same
  have blind (state : State) (gap other : Gap) (token : Token) (close : gap = other) :
      recognizer.step state gap token = recognizer.step state other token := by rw [close]
  generalize spacedTokens left = front at aligned ends gaps
  generalize spacedTokens right = moved at aligned gaps
  cases aligned with
  | nil => exact respects.runSpaced (· = ·) blind .nil start ends
  | @cons one other front moved first more =>
    obtain ⟨gap, token⟩ := one
    obtain ⟨opening, copy⟩ := other
    have similar : List.Forall₂ (fun one other : Spaced => one.gap = other.gap) front moved := by
      rw [List.map_cons, List.map_cons, List.tail_cons, List.tail_cons,
        ← List.forall₂_eq_eq_eq] at gaps
      exact List.forall₂_map_right_iff.mp (List.forall₂_map_left_iff.mp gaps)
    have behind : List.Forall₂ (fun one other : Spaced => one.gap = other.gap ∧
        one.token.Aligned (.byIndex left right) other.token) front moved :=
      similar.mp (fun _ _ close matched => ⟨close, matched⟩) more
    change Agree _ _ (recognizer.runSpaced _ .start _) (recognizer.runSpaced _ .start _)
    rw [runSpaced_start_gap left.utf8ByteSize gap opening]
    exact respects.runSpaced (· = ·) blind (.cons ⟨rfl, first⟩ behind) start (by simpa using ends)

end Expression

end Spacing

/-- Two sources that spell the same significant tokens, up to the end or the
first malformed one, have fragments from the same token to the same token, or
fail with the same fault at the same token. In an expression moreover the gaps
between tokens must be alike, but neither those in front of it nor behind it. -/
theorem extract_ignores_trivia (construct : Construct) {left right : String}
    (fits : left.utf8ByteSize ≤ maxOffset) (also : right.utf8ByteSize ≤ maxOffset)
    (same : (spacedTokens left).map Spaced.spelling = (spacedTokens right).map Spaced.spelling)
    (gaps : construct = .expression →
      ((spacedTokens left).map Spaced.gap).tail = ((spacedTokens right).map Spaced.gap).tail) :
    Agree (SameIndex (tokenStarts left) (tokenStarts right))
      (Span.Corresponds (.byIndex left right)) (construct.extract left) (construct.extract right) := by
  cases construct with
  | ifHeader | forHeader | switchHeader =>
    exact (Header.respects _).recognize_spacing fits also same (fun _ _ _ _ => rfl) fun _ => .keyword
  | label => exact Label.respects.recognize_spacing fits also same (fun _ _ _ _ => rfl) fun _ => .keyword
  | expression => exact Expression.recognize_spacing fits also same (gaps rfl)
  | arguments =>
    exact Arguments.respects.recognize_spacing fits also same (fun _ _ _ _ => rfl)
      fun _ => ⟨.empty, .none⟩

theorem extract_ignores_trivia_comments :
    ∃ span, Construct.expression.extract "\n f(a)/*c*/+\tb // d" = .ok span ∧
      Span.Corresponds (.byIndex "f(a) + b" "\n f(a)/*c*/+\tb // d") ⟨0, 8⟩ span := by
  have extracted : Construct.expression.extract "f(a) + b" = .ok ⟨0, 8⟩ := by decide +kernel
  have fits : "f(a) + b".utf8ByteSize ≤ maxOffset := by decide +kernel
  have also : "\n f(a)/*c*/+\tb // d".utf8ByteSize ≤ maxOffset := by decide +kernel
  have agreed := extract_ignores_trivia .expression fits also (by decide +kernel)
    fun _ => by decide +kernel
  rw [extracted] at agreed
  exact agreed.exists_ok

end FragmentBounds
