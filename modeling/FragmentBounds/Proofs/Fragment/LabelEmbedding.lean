import FragmentBounds.Proofs.Grammar.Label

/-! A label taken out of its source is the same label behind any blank text. Of
what follows it only the next character counts, which must not make an operator
of the colon. -/
namespace FragmentBounds

open Lexeme

theorem LabelWords.moved {head final : Lexeme} {middle : List Lexeme} {first inner last : Nat}
    (label : LabelWords (.ofLexeme first head)
      ((tokensFrom inner middle).filter fun token => !token.isTrivia) (.ofLexeme last final))
    (place within ending : Nat) :
    LabelWords (.ofLexeme place head)
      ((tokensFrom within middle).filter fun token => !token.isTrivia) (.ofLexeme ending final) := by
  have tags := (map_tag_significant within middle).trans (map_tag_significant inner middle).symm
  generalize (tokensFrom inner middle).filter (fun token => !token.isTrivia) = words at label tags
  cases label with
  | default spelled ends =>
    rw [List.map_eq_nil_iff.mp tags]
    exact .default spelled ends
  | case spelled clause ends => exact .case spelled (tags ▸ clause) ends

theorem LabelWords.tag_eq {word colon : Token} {words : List Token}
    (label : LabelWords word words colon) : word.tag = .identifier ∧ colon.tag = .colon := by
  cases label with
  | default spelled ends | case spelled _ ends => exact ⟨Token.tag_of_keyword? spelled, ends⟩

theorem lexemes_before_colon {before text rest : List Char} {head final : Lexeme}
    {middle : List Lexeme} (blank : Blank before)
    (inside : lexemes text = head :: (middle ++ [final])) (opens : head.tag.isTrivia = false)
    (colon : final.tag = .colon) (other : rest.head? ≠ some '=') :
    lexemes (before ++ text ++ rest) =
      lexemes before ++ (head :: (middle ++ [final])) ++ lexemes rest := by
  have split : lexemes (text ++ rest) = head :: (middle ++ [final]) ++ lexemes rest := by
    rw [← inside]
    apply lexemes_append
    intro last member c next
    rw [inside, ← List.cons_append, List.getLast?_concat] at member
    obtain rfl := Option.some.inj member
    rw [colon]
    simp only [endsBefore, bne_iff_ne]
    rintro rfl
    exact other next
  rw [List.append_assoc, lexemes_blank_append blank, split, List.append_assoc]
  rw [split]
  simpa using opens

/-- A label is recognised again wherever its text stands behind blank text. What
follows the colon may be anything that does not go on with it. -/
theorem extract_label_embedded {source : String} {span : Span}
    (extracted : Construct.label.extract source = .ok span) :
    ∃ text, span.get? source = some text ∧
      ∀ before rest : String, Blank before.toList → rest.toList.head? ≠ some '=' →
        (before ++ text ++ rest).utf8ByteSize ≤ maxOffset →
        Construct.label.extract (before ++ text ++ rest) =
          .ok ⟨before.utf8ByteSize, before.utf8ByteSize + text.utf8ByteSize⟩ := by
  obtain ⟨-, word, words, colon, tail, cut, label, rfl⟩ := Label.labelWords_of_extract extracted
  obtain ⟨leading, head, middle, final, after, parts, -, rfl, rfl, rfl⟩ :=
    lexemes_of_significantTokens cut
  obtain ⟨named, ends⟩ := label.tag_eq
  have opens : head.tag.isTrivia = false := by rw [show head.tag = .identifier from named]; rfl
  have closes : final.tag.isTrivia = false := by rw [show final.tag = .colon from ends]; rfl
  obtain ⟨text, covers, inside, size⟩ := get?_of_parts parts
  refine ⟨text, ?_, fun before rest blank other fits => ?_⟩
  · rw [← covers]
    simp [Token.ofLexeme, Lexeme.byteSize, Nat.add_assoc]
  · have split := lexemes_before_colon blank inside opens ends other
    rw [← String.toList_append, ← String.toList_append] at split
    obtain ⟨behind, found⟩ :=
      significantTokens_of_lexemes split (isTrivia_of_mem_lexemes_blank blank) opens closes
    rw [Label.extract_of_labelWords fits found (label.moved _ _ _), size]
    simp [Token.ofLexeme, Lexeme.byteSize, Nat.add_assoc, flatMap_text_lexemes, Text.byteSize_toList]

/-- The colons in brackets, in the string and in the comment do not end the label. -/
theorem extract_label_embedded_colons :
    Construct.label.extract "case m[a:b], \":\" /*:*/ : f()" = .ok ⟨0, 24⟩ ∧
      Construct.label.extract ("\n\t" ++ "case m[a:b], \":\" /*:*/ :" ++ "'") = .ok ⟨2, 26⟩ := by
  have extracted : Construct.label.extract "case m[a:b], \":\" /*:*/ : f()" = .ok ⟨0, 24⟩ := by
    decide +kernel
  obtain ⟨text, covers, embedded⟩ := extract_label_embedded extracted
  have same : Span.get? ⟨0, 24⟩ "case m[a:b], \":\" /*:*/ : f()" =
      some "case m[a:b], \":\" /*:*/ :" := by decide +kernel
  obtain rfl := Option.some.inj (covers.symm.trans same)
  have again := embedded "\n\t" "'" (by decide +kernel) (by decide +kernel) (by decide +kernel)
  exact ⟨extracted, again⟩

end FragmentBounds
