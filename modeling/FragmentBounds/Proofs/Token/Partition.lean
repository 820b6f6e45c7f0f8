import FragmentBounds.Proofs.Checked.Resuming
import FragmentBounds.Proofs.Lexeme.Pieces
import FragmentBounds.Proofs.Token.Layout

/-! What scanners and token streams hand out divides the source. Nothing of it
is left out or comes twice, from wherever the reading starts. -/
namespace FragmentBounds

variable {source : String} {offset : Nat}

/-- The pieces divide what follows an offset. Bytes in front of the next
character are out of place one by one; from there on the pieces are those of the
text, and no character is cut. -/
structure Divides (source : String) (offset : Nat) (found : List Piece) : Prop where
  nonempty : ∀ piece ∈ found, 0 < piece.size ∧ piece.tag ≠ .endOfInput
  whole : offset + totalSize found = source.utf8ByteSize
  resumes : ∃ boundary before after, offset ≤ boundary ∧
    (∀ place, offset ≤ place → place < boundary → ¬ IsCharBoundary source place) ∧
    Text.splitBytes? boundary source.toList = some (before, after) ∧
    found = List.replicate (boundary - offset) Scanner.strayPiece ++ pieces after ∧
    ∀ count, IsCharBoundary source (boundary + totalSize ((pieces after).take count))

section Scanner

theorem tag_ne_endOfInput_of_mem {text : List Char} {lexeme : Lexeme}
    (member : lexeme ∈ lexemes text) : lexeme.tag ≠ .endOfInput := by
  fun_induction lexemes text with
  | case1 => cases member
  | case2 text head rest first ih =>
    rcases List.mem_cons.mp member with rfl | member
    · exact Lexeme.tag_ne_endOfInput first
    · exact ih member

theorem nonempty_of_mem_pieces {text : List Char} {piece : Piece} (member : piece ∈ pieces text) :
    0 < piece.size ∧ piece.tag ≠ .endOfInput := by
  obtain ⟨lexeme, found, rfl⟩ := List.mem_map.mp member
  constructor
  · exact Nat.pos_of_ne_zero fun empty =>
      text_ne_nil_of_mem_lexemes found (Text.byteSize_eq_zero.mp empty)
  · exact tag_ne_endOfInput_of_mem found

theorem totalSize_replicate (count : Nat) (piece : Piece) :
    totalSize (List.replicate count piece) = count * piece.size := by
  induction count with
  | zero => simp
  | succ count ih => rw [List.replicate_succ, totalSize_cons, ih, Nat.succ_mul, Nat.add_comm]

private theorem isCharBoundary_take {before after : List Char} (parts : source.toList = before ++ after)
    (count : Nat) :
    IsCharBoundary source (Text.byteSize before + totalSize ((pieces after).take count)) := by
  refine ⟨before ++ ((lexemes after).take count).flatMap Lexeme.text,
    ((lexemes after).drop count).flatMap Lexeme.text, ?_, ?_⟩
  · rw [List.append_assoc, ← List.flatMap_append, List.take_append_drop, flatMap_text_lexemes, parts]
  · rw [Text.byteSize_append, totalSize_take_pieces]

theorem divides_ofText (inside : offset ≤ source.utf8ByteSize) :
    Divides source offset (Scanner.ofText source.toList offset).toList := by
  rw [← Text.byteSize_toList] at inside
  obtain ⟨before, parts, size, outside⟩ := Text.resume_spec inside
  rw [Scanner.ofText_eq inside, Scanner.toList]
  dsimp only
  generalize (Text.resume offset source.toList).1 = stray at *
  generalize (Text.resume offset source.toList).2 = after at *
  have whole := congrArg Text.byteSize parts
  rw [Text.byteSize_append, size, Text.byteSize_toList] at whole
  refine ⟨?_, ?_, offset + stray, before, after, Nat.le_add_right _ _, ?_, ?_, ?_, ?_⟩
  · intro piece member
    rcases List.mem_append.mp member with member | member
    · rw [List.eq_of_mem_replicate member]
      decide
    · exact nonempty_of_mem_pieces member
  · rw [totalSize_append, totalSize_replicate, totalSize_pieces, whole, Scanner.strayPiece, Nat.mul_one,
      Nat.add_assoc]
  · intro place low high
    rw [isCharBoundary_iff, outside place low high]
    exact Bool.false_ne_true
  · exact Text.splitBytes?_eq_some.mpr ⟨parts, size⟩
  · rw [Nat.add_sub_cancel_left]
  · rw [← size]
    exact isCharBoundary_take parts

end Scanner

/-- What is given up to the first fault, and the fault. -/
def throughFirstFault (items : List (Except Fault Token)) : List (Except Fault Token) :=
  items.takeWhile Except.isOk ++ (items.dropWhile Except.isOk).take 1

/-- A token stream hands out the tokens of a source, one behind the other from
its start to its end, and their texts are the source. A malformed token comes as
its fault, and iteration ends there. -/
structure Delivers (source : String) (stream : TokenStream) : Prop where
  contiguous : Laid 0 (tokens source) source.utf8ByteSize
  covers : ∀ token ∈ tokens source, token.span.get? source = some token.text
  texts : String.join ((tokens source).map Token.text) = source
  scanned : (tokens source).map (fun token => ⟨token.tag, token.span.length⟩) = pieces source.toList
  faults : ∀ token ∈ tokens source, ∀ fault, token.check = .error fault ↔
    ∃ kind, token.tag = .malformed kind ∧ fault = .malformed kind token.span.start
  given : ∃ last, Exhausts (fun state item after => TokenStream.next state = (item, after)) stream
    ((tokens source).map Token.check) (.ok (.endOfInput source.utf8ByteSize)) last
  iterated : ∃ last, Exhausts (fun state item after => TokenStream.iterate state = (item, after))
    stream ((throughFirstFault ((tokens source).map Token.check)).map some ++ [none]) none last
  /-- Tokens scanned on bytes when they are asked for are the same. -/
  onBytes : Exhausts Checked.Hands (.ofSource source) (tokens source)
    (.endOfInput source.utf8ByteSize) ⟨source, source.utf8ByteSize⟩

section Stream

private theorem covers_tokens {token : Token} (member : token ∈ tokens source) :
    token.span.get? source = some token.text := by
  obtain ⟨front, back, cut⟩ := List.append_of_mem member
  obtain ⟨before, after, parts, -, place⟩ := tokensFrom_eq_append cut
  obtain ⟨lexeme, more, rfl, rfl, -⟩ := tokensFrom_eq_cons place.symm
  have whole := flatMap_text_lexemes source.toList
  rw [parts, List.flatMap_append, List.flatMap_cons, ← List.append_assoc] at whole
  rw [Span.get?, ← whole, Token.ofLexeme, Nat.zero_add, Lexeme.byteSize]
  simp only
  rw [Text.sliceBytes?_append]
  rfl

private theorem texts_tokensFrom (start : Nat) (lexemes : List Lexeme) :
    ((tokensFrom start lexemes).map Token.text).flatMap String.toList =
      lexemes.flatMap Lexeme.text := by
  induction lexemes generalizing start with
  | nil => rfl
  | cons lexeme lexemes ih =>
    rw [tokensFrom, List.map_cons, List.flatMap_cons, ih, Token.ofLexeme, String.toList_ofList,
      List.flatMap_cons]

private theorem pieces_tokensFrom (start : Nat) (lexemes : List Lexeme) :
    (tokensFrom start lexemes).map (fun token => ⟨token.tag, token.span.length⟩) =
      lexemes.map Lexeme.piece := by
  induction lexemes generalizing start with
  | nil => rfl
  | cons lexeme lexemes ih =>
    rw [tokensFrom, List.map_cons, ih, List.map_cons, Token.ofLexeme, Span.length,
      Nat.add_sub_cancel_left]
    rfl

private theorem calls_next (pending : List Token) (finished : Bool) :
    Calls (fun state item after => TokenStream.next state = (item, after)) ⟨source, pending, finished⟩
      (pending.map Token.check) ⟨source, [], finished⟩ := by
  induction pending with
  | nil => exact .nil _
  | cons token pending ih => exact .cons rfl ih

private theorem calls_iterate (source : String) (pending : List Token) :
    ∃ left, Calls (fun state item after => TokenStream.iterate state = (item, after))
      ⟨source, pending, false⟩ ((throughFirstFault (pending.map Token.check)).map some ++ [none])
      ⟨source, left, true⟩ := by
  induction pending with
  | nil => exact ⟨[], .cons rfl (.nil _)⟩
  | cons token pending ih =>
    rw [List.map_cons, throughFirstFault]
    cases sound : token.check with
    | ok same =>
      obtain ⟨left, calls⟩ := ih
      exact ⟨left, .cons (by simp [TokenStream.iterate, sound]) calls⟩
    | error fault =>
      have stops : TokenStream.iterate ⟨source, token :: pending, false⟩ =
          (some (.error fault), ⟨source, pending, true⟩) := by simp [TokenStream.iterate, sound]
      exact ⟨pending, .cons stops (.cons rfl (.nil _))⟩

theorem delivers_ofSource {stream : TokenStream} (begun : TokenStream.ofSource source = .ok stream) :
    Delivers source stream := by
  rw [TokenStream.ofSource] at begun
  split at begun
  · cases begun
  · next small =>
    obtain rfl := Except.ok.inj begun
    have fits : source.utf8ByteSize ≤ maxOffset := Nat.le_of_not_lt small
    refine ⟨laid_tokens source, fun _ => covers_tokens, ?_, pieces_tokensFrom 0 _,
      fun _ _ _ => Token.check_eq_error, ⟨_, calls_next _ _, rfl⟩, ?_,
      Checked.exhausts_nextToken fits⟩
    · rw [← String.toList_inj, String.toList_join, tokens, texts_tokensFrom, flatMap_text_lexemes]
    · obtain ⟨left, calls⟩ := calls_iterate source (tokens source)
      exact ⟨_, calls, rfl⟩

end Stream

/-- Scanners and token streams divide the source: a scanner set down anywhere
gives pieces of what follows and then the end for ever, whatever the size, and as
far as offsets reach it does so on bytes; a token stream delivers the tokens. -/
theorem scanner_divides (source : String) {offset : Nat} (inside : offset ≤ source.utf8ByteSize) :
    Divides source offset (Scanner.ofText source.toList offset).toList ∧
      Exhausts Scanner.Gives (.ofText source.toList offset)
        (Scanner.ofText source.toList offset).toList ⟨.endOfInput, 0⟩ ⟨source.utf8ByteSize, 0, []⟩ ∧
      (source.utf8ByteSize ≤ maxOffset →
        Exhausts Checked.Gives ((Cursor.ofSource source).advanceBy offset)
          (Scanner.ofText source.toList offset).toList ⟨.endOfInput, 0⟩
          ⟨source, source.utf8ByteSize⟩) ∧
      ∀ stream, TokenStream.ofSource source = .ok stream → Delivers source stream := by
  refine ⟨divides_ofText inside, ?_, fun fits => ?_, fun _ => delivers_ofSource⟩
  · rw [← Text.byteSize_toList] at inside ⊢
    exact Scanner.exhausts_ofText inside
  · have moved : (Cursor.ofSource source).advanceBy offset = ⟨source, offset⟩ := by
      rw [Cursor.advanceBy, Cursor.ofSource, Nat.zero_add]
      have within : offset ≤ min source.utf8ByteSize maxOffset :=
        Nat.le_min.mpr ⟨inside, Nat.le_trans inside fits⟩
      exact congrArg (Cursor.mk source) (Nat.min_eq_left within)
    rw [moved]
    exact Checked.exhausts_scan fits inside

/-- Inside a character, and with a zero byte in the source, which is not its end. -/
theorem scanner_divides_inside_character : 2 ≤ "aé\x00b".utf8ByteSize ∧
    Divides "aé\x00b" 2 [Scanner.strayPiece, ⟨.malformed .invalidCharacter, 1⟩, ⟨.identifier, 1⟩] ∧
    Exhausts Checked.Gives ⟨"aé\x00b", 2⟩
      [Scanner.strayPiece, ⟨.malformed .invalidCharacter, 1⟩, ⟨.identifier, 1⟩]
      ⟨.endOfInput, 0⟩ ⟨"aé\x00b", 5⟩ ∧
    Delivers "aé\x00b" ⟨"aé\x00b", tokens "aé\x00b", false⟩ := by
  have inside : 2 ≤ "aé\x00b".utf8ByteSize := by decide
  have small : "aé\x00b".utf8ByteSize ≤ maxOffset := by decide
  have found : (Scanner.ofText "aé\x00b".toList 2).toList =
      [Scanner.strayPiece, ⟨.malformed .invalidCharacter, 1⟩, ⟨.identifier, 1⟩] := by decide +kernel
  obtain ⟨divides, -, onBytes, delivers⟩ := scanner_divides "aé\x00b" inside
  rw [found] at divides onBytes
  exact ⟨inside, divides, onBytes small, delivers _ (if_neg (Nat.not_lt.mpr small))⟩

end FragmentBounds
