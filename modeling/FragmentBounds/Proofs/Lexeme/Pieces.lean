import FragmentBounds.Proofs.Checked.Resuming
import FragmentBounds.Proofs.Lexeme.Splitting

/-! The pieces of a text, and the places between them. A text cut at such a
place falls into the pieces on either side of it. Text put behind another
changes no piece that ends two bytes before the seam. A text may have any size
here; one of at most `maxOffset` bytes is scanned to its pieces on bytes too. -/
namespace FragmentBounds

open Lexeme
open Checked (Scans scans_pieces)

def totalSize : List Piece → Nat
  | [] => 0
  | piece :: pieces => piece.size + totalSize pieces

@[simp] theorem totalSize_nil : totalSize [] = 0 := rfl

@[simp] theorem totalSize_cons (piece : Piece) (pieces : List Piece) :
    totalSize (piece :: pieces) = piece.size + totalSize pieces := rfl

@[simp] theorem totalSize_append (front back : List Piece) :
    totalSize (front ++ back) = totalSize front + totalSize back := by
  induction front with
  | nil => simp
  | cons piece front ih => simp [ih, Nat.add_assoc]

theorem totalSize_map_piece (lexemes : List Lexeme) :
    totalSize (lexemes.map Lexeme.piece) = Text.byteSize (lexemes.flatMap Lexeme.text) := by
  induction lexemes with
  | nil => rfl
  | cons lexeme lexemes ih => simp [ih, Lexeme.piece, Lexeme.byteSize]

theorem totalSize_pieces (text : List Char) : totalSize (pieces text) = Text.byteSize text := by
  rw [pieces, totalSize_map_piece, flatMap_text_lexemes]

theorem totalSize_take_pieces (text : List Char) (count : Nat) :
    totalSize ((pieces text).take count) =
      Text.byteSize (((lexemes text).take count).flatMap Lexeme.text) := by
  rw [pieces, ← List.map_take, totalSize_map_piece]

section Cut

theorem scans_ofList {text : List Char} (fits : Text.byteSize text ≤ maxOffset) :
    Scans (String.ofList text) (pieces text) := by
  have within : (String.ofList text).utf8ByteSize ≤ maxOffset := by
    rwa [← Text.byteSize_toList, String.toList_ofList]
  have scans := scans_pieces within
  rwa [String.toList_ofList] at scans

/-- The text between two places where pieces end has the pieces between them,
and so has the text in front and the text behind. -/
theorem pieces_between (text : List Char) (first count : Nat) :
    ∃ before inside after, text = before ++ inside ++ after ∧
      Text.byteSize before = totalSize ((pieces text).take first) ∧
      pieces before = (pieces text).take first ∧
      pieces inside = ((pieces text).drop first).take count ∧
      pieces after = (pieces text).drop (first + count) := by
  have parts : lexemes text = (lexemes text).take first ++
      (((lexemes text).drop first).take count ++ (lexemes text).drop (first + count)) := by
    rw [← List.drop_drop, List.take_append_drop, List.take_append_drop]
  obtain ⟨front, back⟩ := lexemes_split parts
  obtain ⟨middle, behind⟩ := lexemes_split back
  refine ⟨((lexemes text).take first).flatMap Lexeme.text,
    (((lexemes text).drop first).take count).flatMap Lexeme.text,
    ((lexemes text).drop (first + count)).flatMap Lexeme.text,
    ?_, (totalSize_take_pieces text first).symm, ?_, ?_, ?_⟩
  · rw [List.append_assoc, ← List.flatMap_append, ← List.flatMap_append, ← parts,
      flatMap_text_lexemes]
  · rw [pieces, front, pieces, List.map_take]
  · rw [pieces, middle, pieces, List.map_take, List.map_drop]
  · rw [pieces, behind, pieces, List.map_drop]

/-- A source cut behind any number of its pieces has the pieces of both parts,
and the text of one piece alone is that piece again; so it is on bytes, up to the
size that offsets reach. -/
theorem pieces_split (source : String) (count : Nat) :
    (∃ before after,
      Text.splitBytes? (totalSize ((pieces source.toList).take count)) source.toList =
        some (before, after) ∧
      pieces source.toList = pieces before ++ pieces after ∧
      (source.utf8ByteSize ≤ maxOffset → Scans source (pieces before ++ pieces after) ∧
        Scans (String.ofList before) (pieces before) ∧
        Scans (String.ofList after) (pieces after))) ∧
    ∀ index : Fin (pieces source.toList).length, ∃ text : String,
      Span.get? ⟨totalSize ((pieces source.toList).take index),
        totalSize ((pieces source.toList).take (index + 1))⟩ source = some text ∧
      pieces text.toList = [(pieces source.toList)[index]] ∧
      (source.utf8ByteSize ≤ maxOffset → Scans text [(pieces source.toList)[index]]) := by
  constructor
  · obtain ⟨before, inside, after, parts, size, front, middle, behind⟩ :=
      pieces_between source.toList count 0
    obtain rfl : inside = [] := by
      simpa [middle, Text.byteSize_eq_zero] using (totalSize_pieces inside).symm
    rw [List.append_nil] at parts
    have whole : pieces source.toList = pieces before ++ pieces after := by
      rw [front, behind, Nat.add_zero, List.take_append_drop]
    refine ⟨before, after, Text.splitBytes?_eq_some.mpr ⟨parts, size⟩, whole, fun fits => ?_⟩
    have sizes := congrArg Text.byteSize parts
    rw [Text.byteSize_toList, Text.byteSize_append] at sizes
    refine ⟨whole ▸ scans_pieces fits, scans_ofList ?_, scans_ofList ?_⟩ <;> omega
  · intro index
    obtain ⟨before, inside, after, parts, size, -, middle, -⟩ :=
      pieces_between source.toList index 1
    have one : pieces inside = [(pieces source.toList)[index]] := by
      rw [middle, List.drop_eq_getElem_cons index.isLt]
      rfl
    have stop : totalSize ((pieces source.toList).take (index + 1)) =
        totalSize ((pieces source.toList).take index) + Text.byteSize inside := by
      rw [List.take_succ_eq_append_getElem index.isLt, totalSize_append, ← totalSize_pieces inside, one]
      rfl
    refine ⟨String.ofList inside, ?_, by rw [String.toList_ofList, one], fun fits => ?_⟩
    · rw [Span.get?, Text.sliceBytes?_eq_some.mpr ⟨before, after, parts, size, stop.symm⟩]
      rfl
    · have sizes := congrArg Text.byteSize parts
      rw [Text.byteSize_toList, Text.byteSize_append, Text.byteSize_append] at sizes
      rw [← one]
      exact scans_ofList (by omega)

/-- Between two points and a rune that has no end: put together they stay apart. -/
theorem pieces_split_points : "..'a\n".utf8ByteSize ≤ maxOffset ∧
    pieces "..'a\n".toList = [⟨.dot, 1⟩, ⟨.dot, 1⟩, ⟨.malformed .unterminatedRune, 2⟩,
      ⟨.trivia .newline, 1⟩] ∧
    Scans ".." [⟨.dot, 1⟩, ⟨.dot, 1⟩] ∧
    Scans "'a\n" [⟨.malformed .unterminatedRune, 2⟩, ⟨.trivia .newline, 1⟩] := by
  have fits : "..'a\n".utf8ByteSize ≤ maxOffset := by decide
  have found : pieces "..'a\n".toList = [⟨.dot, 1⟩, ⟨.dot, 1⟩, ⟨.malformed .unterminatedRune, 2⟩,
      ⟨.trivia .newline, 1⟩] := by decide +kernel
  have front : pieces "..".toList = [⟨.dot, 1⟩, ⟨.dot, 1⟩] := by decide +kernel
  have back : pieces "'a\n".toList = [⟨.malformed .unterminatedRune, 2⟩, ⟨.trivia .newline, 1⟩] := by
    decide +kernel
  have parts : Text.splitBytes? 2 "..'a\n".toList = some ("..".toList, "'a\n".toList) := by decide
  obtain ⟨⟨before, after, cut, -, scans⟩, -⟩ := pieces_split "..'a\n" 2
  rw [found] at cut
  obtain ⟨rfl, rfl⟩ := Prod.mk.inj (Option.some.inj (parts.symm.trans cut))
  rw [front, back, String.ofList_toList, String.ofList_toList] at scans
  exact ⟨fits, found, (scans fits).2⟩

end Cut

section Seam

/-- A lexeme with two bytes behind it is not changed by text put behind these. -/
theorem keeps_of_two_bytes {lexeme : Lexeme} {after : List Char}
    (first : first? (lexeme.text ++ after) = some (lexeme, after)) (two : 2 ≤ Text.byteSize after)
    (rest : List Char) : Keeps lexeme.tag after (after ++ rest) := by
  cases after with
  | nil => simp at two
  | cons c after =>
    cases after with
    | cons d after => exact keeps_of_two first rest
    | nil =>
      -- The one character is more than a byte long, so it is no point.
      refine .inl ⟨rfl, fun dot points => ?_⟩
      obtain ⟨behind, same⟩ := points
      simp only [List.cons_append, List.nil_append, List.cons.injEq] at same
      rw [← same.1] at two
      exact absurd two (by decide)

theorem take_lexemes_append {front : List Char} (rest : List Char) {count : Nat}
    (clear : Text.byteSize (((lexemes front).take count).flatMap Lexeme.text) + 2 ≤
      Text.byteSize front) :
    (lexemes (front ++ rest)).take count = (lexemes front).take count := by
  induction count generalizing front with
  | zero => rfl
  | succ count ih =>
    cases cut : first? front with
    | none =>
      rw [first?_eq_none.mp cut] at clear
      simp at clear
    | some found =>
      obtain ⟨lexeme, after⟩ := found
      have whole := (first?_cuts cut).2
      subst whole
      rw [lexemes_of_first? cut, List.take_succ_cons, List.flatMap_cons, Text.byteSize_append,
        Text.byteSize_append] at clear
      have keeps := keeps_of_two_bytes cut (by omega) rest
      rw [List.append_assoc, lexemes_of_first? (first?_keeps cut keeps), lexemes_of_first? cut,
        List.take_succ_cons, List.take_succ_cons, ih (by omega)]

/-- Two bytes of lookahead: a piece that ends two bytes before the end of the
source is the same piece, whatever is put behind the source. Both sources are
scanned to these pieces on bytes, up to the size that offsets reach. -/
theorem getElem?_pieces_append {front : String} (rest : String) {index : Nat} {piece : Piece}
    (found : (pieces front.toList)[index]? = some piece)
    (clear : totalSize ((pieces front.toList).take (index + 1)) + 2 ≤ front.utf8ByteSize) :
    (pieces (front ++ rest).toList)[index]? = some piece ∧
      ((front ++ rest).utf8ByteSize ≤ maxOffset → Scans front (pieces front.toList) ∧
        Scans (front ++ rest) (pieces (front ++ rest).toList)) := by
  constructor
  · rw [totalSize_take_pieces, ← Text.byteSize_toList] at clear
    have same := take_lexemes_append rest.toList clear
    have prefixes : (pieces (front ++ rest).toList).take (index + 1) =
        (pieces front.toList).take (index + 1) := by
      rw [String.toList_append, pieces, pieces, ← List.map_take, ← List.map_take, same]
    rw [← List.getElem?_take_of_lt (Nat.lt_succ_self index), prefixes,
      List.getElem?_take_of_lt (Nat.lt_succ_self index), found]
  · intro fits
    have within : front.utf8ByteSize ≤ maxOffset := by
      rw [String.utf8ByteSize_append] at fits
      exact Nat.le_of_add_right_le fits
    exact ⟨scans_pieces within, scans_pieces fits⟩

/-- The point keeps away from the two points to come by one character of two bytes. -/
theorem getElem?_pieces_append_point :
    (pieces "a.é".toList)[1]? = some ⟨.dot, 1⟩ ∧
      totalSize ((pieces "a.é".toList).take 2) + 2 ≤ "a.é".utf8ByteSize ∧
      (pieces ("a.é" ++ "..").toList)[1]? = some ⟨.dot, 1⟩ ∧
      Scans ("a.é" ++ "..") [⟨.identifier, 1⟩, ⟨.dot, 1⟩, ⟨.identifier, 2⟩, ⟨.dot, 1⟩, ⟨.dot, 1⟩] := by
  have found : (pieces "a.é".toList)[1]? = some ⟨.dot, 1⟩ := by decide +kernel
  have clear : totalSize ((pieces "a.é".toList).take 2) + 2 ≤ "a.é".utf8ByteSize := by
    decide +kernel
  have whole : pieces ("a.é" ++ "..").toList =
      [⟨.identifier, 1⟩, ⟨.dot, 1⟩, ⟨.identifier, 2⟩, ⟨.dot, 1⟩, ⟨.dot, 1⟩] := by decide +kernel
  have fits : ("a.é" ++ "..").utf8ByteSize ≤ maxOffset := by decide
  obtain ⟨same, scans⟩ := getElem?_pieces_append ".." found clear
  exact ⟨found, clear, same, whole ▸ (scans fits).2⟩

/-- One byte is not enough: a point with one behind it may be part of a spread mark. -/
example : pieces "..".toList = [⟨.dot, 1⟩, ⟨.dot, 1⟩] ∧
    pieces "...".toList = [⟨.ellipsis, 3⟩] := by decide +kernel

end Seam

end FragmentBounds
