import FragmentBounds.Proofs.Checked.Resuming
import FragmentBounds.Proofs.Token.Layout

/-! What is read at an offset of a source. A lexeme in front of the text there
is what a scanner gives, on characters as on bytes, and it is the token of the
source that starts there. -/
namespace FragmentBounds

variable {source : String} {offset : Nat} {before rest after : List Char} {lexeme : Lexeme}

/-- A scanner set down at the offset gives the piece of the lexeme, and a token of
the source that starts there is that one. On bytes the token is read too, up to the
size of a source that offsets reach. -/
structure ReadAt (source : String) (offset : Nat) (lexeme : Lexeme) : Prop where
  piece : (Scanner.ofText source.toList offset).next.1 = lexeme.piece
  token : ∀ token ∈ tokens source, token.span.start = offset → token = .ofLexeme offset lexeme
  onBytes : source.utf8ByteSize ≤ maxOffset →
    Checked.Hands ⟨source, offset⟩ (.ofLexeme offset lexeme) ⟨source, offset + lexeme.byteSize⟩

theorem first?_of_mem_tokens {token : Token} (member : token ∈ tokens source) :
    ∃ before rest lexeme after, Text.splitBytes? token.span.start source.toList = some (before, rest) ∧
      Lexeme.first? rest = some (lexeme, after) ∧ token = .ofLexeme token.span.start lexeme := by
  obtain ⟨front, back, cut⟩ := List.append_of_mem member
  obtain ⟨behind, ahead, parts, -, place⟩ := tokensFrom_eq_append cut
  obtain ⟨lexeme, more, rfl, rfl, -⟩ := tokensFrom_eq_cons place.symm
  have whole := flatMap_text_lexemes source.toList
  rw [parts, List.flatMap_append] at whole
  obtain ⟨after, first, -, -⟩ := lexemes_eq_cons (lexemes_split parts).2
  refine ⟨behind.flatMap Lexeme.text, _, lexeme, after, ?_, first, rfl⟩
  rw [← whole]
  simp only [Token.ofLexeme, Nat.zero_add]
  exact Text.splitBytes?_append _ _

private theorem eq_ofLexeme (here : Text.splitBytes? offset source.toList = some (before, rest))
    (first : Lexeme.first? rest = some (lexeme, after)) {token : Token}
    (member : token ∈ tokens source) (starts : token.span.start = offset) :
    token = .ofLexeme offset lexeme := by
  obtain ⟨_, _, _, _, also, found, same⟩ := first?_of_mem_tokens member
  rw [starts] at also same
  obtain ⟨-, rfl⟩ := Prod.mk.inj (Option.some.inj (here.symm.trans also))
  obtain ⟨rfl, -⟩ := Prod.mk.inj (Option.some.inj (first.symm.trans found))
  exact same

theorem readAt_of_first? (here : Text.splitBytes? offset source.toList = some (before, rest))
    (first : Lexeme.first? rest = some (lexeme, after)) : ReadAt source offset lexeme := by
  obtain ⟨parts, size⟩ := Text.splitBytes?_eq_some.mp here
  refine ⟨?_, fun token => eq_ofLexeme here first, fun fits => ?_⟩
  · have resumed : Text.resume offset source.toList = (0, rest) := by
      rw [parts, ← size, Text.resume_append]
    simp only [Scanner.ofText, resumed, Scanner.next, first]
  · have faces : Checked.Faces source ⟨source, offset⟩ rest := ⟨fits, rfl, before, parts, size⟩
    have more : rest ≠ [] := fun none => by simp [Lexeme.first?_eq_none.mpr none] at first
    obtain ⟨⟨token, next⟩, hands, found, _, also, same, ahead, moved⟩ :=
      Checked.returns_nextToken faces more
    obtain ⟨rfl, rfl⟩ := Prod.mk.inj (Option.some.inj (first.symm.trans also))
    have place : next = ⟨source, offset + lexeme.byteSize⟩ := by
      rw [← ahead.same, ← moved]
    obtain rfl : token = .ofLexeme offset lexeme := same
    rw [Checked.Hands, hands, place]

end FragmentBounds
