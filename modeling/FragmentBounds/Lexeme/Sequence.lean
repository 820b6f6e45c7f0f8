import FragmentBounds.Lexeme.Trivia
import FragmentBounds.Lexeme.Word
import FragmentBounds.Lexeme.Numeral
import FragmentBounds.Lexeme.Quoted
import FragmentBounds.Lexeme.Symbol

/-! A text as the sequence of its lexemes. Nothing is skipped: the lexemes,
malformed ones included, put together give back the text. -/
namespace FragmentBounds.Lexeme

def stray? : Reader
  | [] => none
  | c :: text => some (⟨.malformed .invalidCharacter, [c]⟩, text)

/-- The first lexeme of a text. A comment comes before the operator `/`, and a
numeral such as `.5` before the point. -/
def first? : Reader := fun text =>
  trivia? text <|> (word? text <|> (numeral? text <|>
    (quoted? text <|> (symbol? text <|> stray? text))))

theorem stray?_cuts : Cuts stray? := by
  intro text lexeme rest first
  unfold stray? at first
  split at first
  · simp at first
  · obtain ⟨rfl, rfl⟩ := Prod.mk.inj (Option.some.inj first)
    simp

theorem first?_cuts : Cuts first? :=
  trivia?_cuts.orElse <| word?_cuts.orElse <| numeral?_cuts.orElse <| quoted?_cuts.orElse <|
    symbol?_cuts.orElse stray?_cuts

theorem first?_eq_none {text : List Char} : first? text = none ↔ text = [] := by
  constructor
  · intro none
    cases text with
    | nil => rfl
    | cons c text => simp [first?, stray?] at none
  · rintro rfl
    decide

end FragmentBounds.Lexeme

namespace FragmentBounds

open Lexeme

/-- The lexemes of a text, malformed ones included. -/
def lexemes (text : List Char) : List Lexeme :=
  match _ : first? text with
  | none => []
  | some (lexeme, rest) => lexeme :: lexemes rest
termination_by text.length
decreasing_by exact first?_cuts.length_lt ‹_›

theorem lexemes_nil : lexemes [] = [] := by
  rw [lexemes]
  rfl

theorem lexemes_of_first? {text rest : List Char} {lexeme : Lexeme}
    (first : first? text = some (lexeme, rest)) : lexemes text = lexeme :: lexemes rest := by
  rw [lexemes]
  split <;> simp_all

/-- Lexemes lose nothing of the text. -/
theorem flatMap_text_lexemes (text : List Char) : (lexemes text).flatMap Lexeme.text = text := by
  fun_induction lexemes text with
  | case1 text none => exact (first?_eq_none.mp none).symm
  | case2 text lexeme rest first ih => simpa [ih] using (first?_cuts first).2

theorem text_ne_nil_of_mem_lexemes {text : List Char} {lexeme : Lexeme}
    (member : lexeme ∈ lexemes text) : lexeme.text ≠ [] := by
  fun_induction lexemes text with
  | case1 => simp at member
  | case2 text head rest first ih =>
    rcases List.mem_cons.mp member with rfl | member
    · exact (first?_cuts first).1
    · exact ih member

end FragmentBounds
