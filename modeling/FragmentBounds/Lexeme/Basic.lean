import FragmentBounds.Lexeme.Tag
import FragmentBounds.Text.Utf8

/-! Lexemes, and what it means to read one off the front of a text. -/
namespace FragmentBounds

structure Lexeme where
  tag : Tag
  text : List Char
  deriving DecidableEq, Repr

namespace Lexeme

def byteSize (lexeme : Lexeme) : Nat := Text.byteSize lexeme.text

/-- Reads a lexeme and gives what follows it, if the text starts with one of
the reader's kind. -/
abbrev Reader := List Char → Option (Lexeme × List Char)

/-- The reader loses nothing, and reads at least one character. -/
def Cuts (read : Reader) : Prop :=
  ∀ ⦃text lexeme rest⦄, read text = some (lexeme, rest) →
    lexeme.text ≠ [] ∧ lexeme.text ++ rest = text

theorem Cuts.length_lt {read : Reader} (cuts : Cuts read) {text rest : List Char}
    {lexeme : Lexeme} (first : read text = some (lexeme, rest)) : rest.length < text.length := by
  obtain ⟨nonempty, whole⟩ := cuts first
  have := List.length_pos_iff.mpr nonempty
  simp only [← whole, List.length_append]
  omega

theorem Cuts.orElse {left right : Reader} (leftCuts : Cuts left) (rightCuts : Cuts right) :
    Cuts fun text => left text <|> right text := by
  intro text lexeme rest first
  cases found : left text with
  | some pair =>
    simp only [found, Option.orElse_eq_orElse, Option.orElse_some, Option.some.injEq] at first
    exact leftCuts (found.trans (congrArg some first))
  | none =>
    simp only [found, Option.orElse_eq_orElse, Option.orElse_none] at first
    exact rightCuts first

end Lexeme

end FragmentBounds
