import FragmentBounds.Proofs.Fragment.Parts

/-! Fragments on their own. Whatever construct a fragment was taken from, its
text holds nothing malformed, its brackets match, and it has no trivia at
either end. -/
namespace FragmentBounds

open Recognizer

/-- Nothing in the text is malformed, its brackets match, and there is no trivia
at either end. -/
structure Clean (text : String) : Prop where
  sound : ∀ lexeme ∈ lexemes text.toList, lexeme.tag.isMalformed = false
  balanced : Balanced ((lexemes text.toList).map Lexeme.tag)
  trimmed : text = "" ∨ Trimmed (lexemes text.toList)

theorem Clean.empty : Clean "" where
  sound := by simp [lexemes_nil]
  balanced := by
    rw [String.toList_empty, lexemes_nil]
    exact .nil
  trimmed := .inl rfl

theorem get?_point {source : String} {offset : Nat} (boundary : IsCharBoundary source offset) :
    (Span.point offset).get? source = some "" := by
  obtain ⟨before, after, same, start⟩ := boundary
  exact Span.get?_eq_some.mpr ⟨before, after, by simp [same], start, by simp [Span.point]⟩

section Parts

variable {source : String} {before read back : List Token} (parts : Parts source before read back)
include parts

theorem Parts.clean_of_hull {span : Span} (covers : hull none read = some span) :
    ∃ text, span.get? source = some text ∧ Clean text := by
  obtain ⟨start, rest, cut, rfl, behind⟩ := tokensFrom_eq_append parts.cut
  obtain ⟨inside, after, rfl, rfl, -⟩ := tokensFrom_eq_append behind.symm
  have full : ∀ lexeme ∈ start ++ (inside ++ after), lexeme.text ≠ [] := by
    rw [← cut]
    exact fun lexeme => text_ne_nil_of_mem_lexemes
  have sound := tag_of_mem_lexemes (P := fun tag => tag.isMalformed = false) parts.sound
  rcases trivia_or_trimmed inside with all | ⟨left, core, right, rfl, leading, trimmed, trailing⟩
  · rw [hull_trivia none (isTrivia_tokensFrom all)] at covers
    cases covers
  · rw [hull_tokensFrom _ leading trimmed (fun l m => full l (by simp [m])) trailing] at covers
    cases covers
    have cut : lexemes source.toList = start ++ left ++ core ++ (right ++ after) := by simp [cut]
    obtain ⟨text, covered, rfl, -⟩ := get?_of_parts cut
    refine ⟨text, by simpa [Nat.add_assoc] using covered, ?_, ?_, .inr trimmed⟩
    · exact fun lexeme member => sound lexeme (by simp [member])
    · have balanced := parts.balanced
      rw [tokensFrom_append, tokensFrom_append] at balanced
      have plain (start : Nat) {trivia : List Lexeme} (all : ∀ lexeme ∈ trivia, lexeme.tag.isTrivia) :
          ∀ token ∈ tokensFrom start trivia, token.tag.isBracket = false :=
        fun token member => Tag.isBracket_of_isTrivia (isTrivia_tokensFrom all token member)
      have core := balanced.inside (plain _ leading) (plain _ trailing)
      rwa [map_tag_tokensFrom] at core

theorem Parts.clean_of_upcoming {offset : Nat} (upcoming : Upcoming source back offset) :
    ∃ text, ((hull none read).getD (.point offset)).get? source = some text ∧ Clean text := by
  cases covers : hull none read with
  | some span => exact parts.clean_of_hull covers
  | none =>
    have extent := extent_of_upcoming parts.cut upcoming
    rw [covers] at extent
    exact ⟨"", get?_point extent.starts.isCharBoundary, .empty⟩

end Parts

theorem fits_of_extract {construct : Construct} {source : String} {span : Span}
    (extracted : construct.extract source = .ok span) : source.utf8ByteSize ≤ maxOffset := by
  cases construct <;> exact (recognize_eq_ok extracted).1

theorem clean_of_extract {construct : Construct} {source : String} {span : Span}
    (extracted : construct.extract source = .ok span) :
    ∃ text, span.get? source = some text ∧ Clean text := by
  cases construct with
  | ifHeader | forHeader | switchHeader =>
    obtain ⟨_, _, _, _, _, -, -, parts, upcoming, rfl, -⟩ := Header.parts extracted
    exact parts.clean_of_upcoming upcoming
  | label =>
    obtain ⟨_, _, parts, covers⟩ := Label.parts extracted
    exact parts.clean_of_hull covers
  | expression =>
    obtain ⟨_, _, parts, covers⟩ := Expression.parts extracted
    exact parts.clean_of_hull covers
  | arguments =>
    obtain ⟨_, _, _, parts, upcoming, rfl⟩ := Arguments.parts extracted
    exact parts.clean_of_upcoming upcoming

end FragmentBounds
