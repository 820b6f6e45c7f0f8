import FragmentBounds.Proofs.Checked.Bytes

/-! Cursors in front of the rest of a source. What a cursor sees is the start of
that rest, and where it moves to is in front of a shorter one. -/
namespace FragmentBounds.Checked

open Lexeme

/-- An ASCII character other than the one that a cursor also sees at the end. -/
def isMark (a : Char) : Bool := decide (a.toNat < 128) && a != '\x00'

theorem isMark_iff {a : Char} : isMark a ↔ a.toNat < 128 ∧ a ≠ '\x00' := by
  simp [isMark]

/-- The cursor stands in the source, of which the text is left. -/
structure Faces (source : String) (cursor : Cursor) (text : List Char) : Prop where
  fits : source.utf8ByteSize ≤ maxOffset
  same : cursor.source = source
  place : ∃ front, source.toList = front ++ text ∧ Text.byteSize front = cursor.pos

variable {source : String} {cursor next : Cursor} {text rest : List Char} {c : Char}

theorem faces_ofSource (fits : source.utf8ByteSize ≤ maxOffset) :
    Faces source (.ofSource source) source.toList :=
  ⟨fits, rfl, [], rfl, rfl⟩

namespace Faces

theorem pos_add (faces : Faces source cursor text) :
    cursor.pos + Text.byteSize text = cursor.size := by
  obtain ⟨fits, rfl, front, parts, place⟩ := faces
  rw [Cursor.size_of_fits fits, ← Text.byteSize_toList, parts, Text.byteSize_append, place]

theorem left_eq (faces : Faces source cursor text) :
    cursor.size - cursor.pos = Text.byteSize text := by
  have size := faces.pos_add
  omega

theorem less (faces : Faces source cursor text) (ahead : Faces source next rest)
    (shorter : Text.byteSize rest < Text.byteSize text) :
    next.size - next.pos < cursor.size - cursor.pos := by
  rw [faces.left_eq, ahead.left_eq]
  exact shorter

theorem size_eq (faces : Faces source cursor text) : cursor.size = source.utf8ByteSize := by
  obtain ⟨fits, rfl, -⟩ := faces
  exact Cursor.size_of_fits fits

theorem pos_le (faces : Faces source cursor text) : cursor.pos ≤ maxOffset := by
  have size := faces.pos_add
  have fits := faces.fits
  rw [faces.size_eq] at size
  omega

theorem byteSize_tail_le (faces : Faces source cursor (c :: rest)) :
    Text.byteSize rest ≤ maxOffset := by
  have size := faces.pos_add
  have fits := faces.fits
  rw [faces.size_eq, Text.byteSize_cons] at size
  omega

theorem moved_eq (faces : Faces source cursor text) : moved cursor = .ok cursor :=
  if_neg (Nat.not_lt.mpr faces.pos_le)

theorem returns_moved {P : Cursor → Prop} (faces : Faces source cursor text) (holds : P cursor) :
    Returns (moved cursor) P := ⟨cursor, faces.moved_eq, holds⟩

theorem moves {α : Type} {more : Cursor → Except Panic α} {P : α → Prop}
    (faces : Faces source cursor text) (returns : Returns (more cursor) P) :
    Returns (moved cursor >>= more) P := by
  rw [faces.moved_eq]
  exact returns

theorem rest_eq (faces : Faces source cursor text) : cursor.rest = Text.bytes text := by
  obtain ⟨fits, rfl, front, parts, place⟩ := faces
  rw [Cursor.rest_of_fits fits, parts, Text.bytes_append, ← place, ← Text.length_bytes front]
  exact List.drop_left

theorem behind (faces : Faces source cursor text) {front : List Char} (whole : text = front ++ rest)
    (kept : next.source = cursor.source) (pos : next.pos = cursor.pos + Text.byteSize front) :
    Faces source next rest := by
  obtain ⟨fits, same, before, parts, place⟩ := faces
  refine ⟨fits, kept.trans same, before ++ front, ?_, ?_⟩
  · rw [parts, whole, List.append_assoc]
  · rw [Text.byteSize_append, place, pos]

theorem isAtEnd_iff (faces : Faces source cursor text) : cursor.isAtEnd ↔ text = [] := by
  have size := faces.pos_add
  rw [Cursor.isAtEnd, decide_eq_true_iff, ← Text.byteSize_eq_zero]
  omega

theorem currentChar?_eq (faces : Faces source cursor text) : cursor.currentChar? = text.head? := by
  rw [Cursor.currentChar?]
  cases text with
  | nil => exact if_pos (faces.isAtEnd_iff.mpr rfl)
  | cons c text =>
    have more : ¬ cursor.isAtEnd := fun ended => by cases faces.isAtEnd_iff.mp ended
    obtain ⟨-, rfl, front, parts, place⟩ := faces
    rw [if_neg more, parts, ← place, Text.splitBytes?_append]
    rfl

theorem current_nil (faces : Faces source cursor []) : cursor.current = 0 := by
  rw [Cursor.current, Cursor.peek, faces.rest_eq]
  rfl

theorem current_of_ascii (faces : Faces source cursor (c :: text)) (low : c.toNat < 128) :
    cursor.current = c.toUInt8 := by
  rw [Cursor.current, Cursor.peek, faces.rest_eq, bytes_cons_of_ascii low]
  rfl

theorem current_mem (faces : Faces source cursor (c :: text)) :
    cursor.current ∈ String.utf8EncodeChar c := by
  obtain ⟨byte, more, parts, same⟩ := bytes_cons_eq c text
  rw [Cursor.current, Cursor.peek, faces.rest_eq, parts, same]
  exact List.mem_cons_self

theorem ascii_current (faces : Faces source cursor text) {p : Char → Bool} (plain : Plain p)
    (full : p '\x00' = false) : ascii p cursor.current = text.head?.any p := by
  -- At the end the cursor sees a zero byte, which the property must not take in.
  cases text with
  | nil =>
    rw [faces.current_nil]
    exact full
  | cons c text =>
    cases holds : p c with
    | true => rw [faces.current_of_ascii (plain c holds), ascii_toUInt8 p (plain c holds), holds,
        List.head?_cons, Option.any_some, holds]
    | false => rw [ascii_of_mem_encode holds faces.current_mem, List.head?_cons, Option.any_some, holds]

theorem current_beq (faces : Faces source cursor text) {a : Char} (mark : isMark a) :
    (cursor.current == a.toUInt8) = (text.head? == some a) := by
  obtain ⟨low, full⟩ := isMark_iff.mp mark
  rw [beq_toUInt8 low, faces.ascii_current (plain_beq low) (beq_eq_false_iff_ne.mpr full.symm)]
  cases text <;> rfl

theorem look (faces : Faces source cursor text) (a : Char) (mark : isMark a) :
    (∃ rest, text = a :: rest ∧ cursor.current == a.toUInt8) ∨
      ¬cursor.current == a.toUInt8 ∧ text.head? ≠ some a := by
  rw [faces.current_beq mark]
  cases text with
  | nil => exact .inr ⟨by simp, by simp⟩
  | cons c text =>
    by_cases same : c = a
    · exact .inl ⟨text, by rw [same], by simp [same]⟩
    · exact .inr ⟨by simp [same], by simp [same]⟩

theorem peek_succ (faces : Faces source cursor (c :: text)) (low : c.toNat < 128) (ahead : Nat)
    (behind : Faces source next text) : cursor.peek (ahead + 1) = next.peek ahead := by
  rw [Cursor.peek, Cursor.peek, faces.rest_eq, behind.rest_eq, bytes_cons_of_ascii low,
    List.drop_succ_cons]

theorem pos_eq (faces : Faces source cursor text) (ahead : Faces source next rest)
    {front : List Char} (whole : text = front ++ rest) :
    next.pos = cursor.pos + Text.byteSize front := by
  have left := faces.pos_add
  have right := ahead.pos_add
  rw [faces.size_eq, whole, Text.byteSize_append] at left
  rw [ahead.size_eq] at right
  omega

theorem returns_sliceFrom (faces : Faces source cursor text) (ahead : Faces source next rest)
    {front : List Char} (whole : text = front ++ rest) :
    Returns (sliceFrom cursor.pos next) (· = String.ofList front) := by
  have pos := faces.pos_eq ahead whole
  obtain ⟨before, parts, place⟩ := faces.place
  have cut : Text.sliceBytes? cursor.pos next.pos source.toList = some front := by
    rw [parts, whole, pos, ← place, ← List.append_assoc]
    exact Text.sliceBytes?_append before front rest
  refine ⟨_, ?_, rfl⟩
  rw [sliceFrom, Cursor.sliceFrom, Cursor.slice, if_neg (by omega), ahead.same, cut]
  rfl

section Moves

theorem advanceBy (faces : Faces source cursor text) {front : List Char} (whole : text = front ++ rest)
    {count : Nat} (size : Text.byteSize front = count) : Faces source (cursor.advanceBy count) rest := by
  have total := faces.pos_add
  refine faces.behind whole rfl ?_
  rw [whole, Text.byteSize_append] at total
  simp only [Cursor.advanceBy]
  omega

theorem utf8Size_of_ascii (low : c.toNat < 128) : c.utf8Size = 1 := by
  rw [← String.length_utf8EncodeChar, encode_of_ascii low, List.length_singleton]

theorem advance (faces : Faces source cursor (c :: rest)) (low : c.toNat < 128) :
    Faces source cursor.advance rest := by
  have whole : c :: rest = [c] ++ rest := rfl
  apply faces.advanceBy whole
  rw [Text.byteSize_cons, Text.byteSize_nil, utf8Size_of_ascii low]

theorem advanceChar (faces : Faces source cursor (c :: rest)) : Faces source cursor.advanceChar rest := by
  have whole : c :: rest = [c] ++ rest := rfl
  rw [Cursor.advanceChar, faces.currentChar?_eq]
  exact faces.advanceBy whole (by simp)

theorem eatWhile (faces : Faces source cursor text) {p : Char → Bool} (plain : Plain p) :
    Faces source (cursor.eatWhile (ascii p)) (text.dropWhile p) := by
  refine faces.behind (List.takeWhile_append_dropWhile).symm rfl ?_
  rw [Cursor.eatWhile, faces.rest_eq, takeWhile_bytes plain, Text.length_bytes]

theorem eatWhile_not (faces : Faces source cursor text) {p : Char → Bool} (plain : Plain p) :
    Faces source (cursor.eatWhile fun byte => !ascii p byte) (text.dropWhile fun c => !p c) := by
  refine faces.behind (List.takeWhile_append_dropWhile).symm rfl ?_
  rw [Cursor.eatWhile, faces.rest_eq, takeWhile_not_bytes plain, Text.length_bytes]

theorem eatUpTo (faces : Faces source cursor text) {p : Char → Bool} (plain : Plain p)
    (limit : Nat) : Faces source (cursor.eatUpTo limit (ascii p)).2 (runUpTo limit p text).2 := by
  refine faces.behind (runUpTo_append limit p text).symm rfl ?_
  rw [Cursor.eatUpTo, faces.rest_eq, takeWhile_take_bytes plain, Text.length_bytes]

theorem eatBlanks (faces : Faces source cursor text) :
    Faces source cursor.eatBlanks (text.dropWhile isBlank) := by
  have plain : Plain isBlank := plain_or (plain_beq (by decide)) (plain_beq (by decide))
  have same : (fun byte => byte == ' '.toUInt8 || byte == '\t'.toUInt8) = ascii isBlank := by
    funext byte
    rw [beq_toUInt8 (by decide), beq_toUInt8 (by decide)]
    simp only [ascii, isBlank, ← Bool.and_or_distrib_left]
  rw [Cursor.eatBlanks, same]
  exact faces.eatWhile plain

theorem eatLine (faces : Faces source cursor text) :
    Faces source cursor.eatLine (text.dropWhile (· != '\n')) := by
  have plain : Plain (· == '\n') := plain_beq (by decide)
  have same : (fun byte => byte != '\n'.toUInt8) = fun byte => !ascii (· == '\n') byte := by
    funext byte
    rw [← beq_toUInt8 (by decide)]
    rfl
  rw [Cursor.eatLine, same]
  exact faces.eatWhile_not plain

theorem eatUntil (faces : Faces source cursor text) {quote : Char} (low : quote.toNat < 128) :
    Faces source (cursor.eatUntil quote.toUInt8).2 (text.dropWhile (· != quote)) := by
  have plain : Plain (· == quote) := plain_beq low
  have same : (fun byte => byte != quote.toUInt8) = fun byte => !ascii (· == quote) byte := by
    funext byte
    rw [← beq_toUInt8 low]
    rfl
  rw [Cursor.eatUntil, same]
  exact faces.eatWhile_not plain

theorem skipToDelimiter (faces : Faces source cursor text) {quote : Char} (low : quote.toNat < 128) :
    Faces source (cursor.skipToDelimiter quote.toUInt8).2
      (text.dropWhile fun c => !(c == quote || c == '\\' || c == '\n')) := by
  have plain : Plain fun c => c == quote || c == '\\' || c == '\n' :=
    plain_or (plain_or (plain_beq low) (plain_beq (by decide))) (plain_beq (by decide))
  have same : (fun byte => byte != quote.toUInt8 && byte != '\\'.toUInt8 && byte != '\n'.toUInt8) =
      fun byte => !ascii (fun c => c == quote || c == '\\' || c == '\n') byte := by
    funext byte
    simp only [bne, beq_toUInt8 low, beq_toUInt8 (show '\\'.toNat < 128 by decide),
      beq_toUInt8 (show '\n'.toNat < 128 by decide), ← Bool.not_or]
    simp only [ascii, ← Bool.and_or_distrib_left]
  rw [Cursor.skipToDelimiter, same]
  exact faces.eatWhile_not plain

theorem eatCommentBody (faces : Faces source cursor text) :
    cursor.eatCommentBody.1 = (commentBody? text).isSome ∧
      Faces source cursor.eatCommentBody.2 ((commentBody? text).elim [] Prod.snd) := by
  have found := commentLength?_bytes text
  rw [← faces.rest_eq] at found
  rw [Cursor.eatCommentBody, found]
  cases closed : commentBody? text with
  | none =>
    have size := faces.pos_add
    exact ⟨rfl, faces.behind (List.append_nil text).symm rfl size.symm⟩
  | some pair =>
    obtain ⟨body, rest⟩ := pair
    exact ⟨rfl, faces.behind (commentBody?_append closed).symm rfl rfl⟩

end Moves

end Faces

def Scanned (source : String) (text : List Char) (result : Piece × Cursor) : Prop :=
  ∃ lexeme rest, first? text = some (lexeme, rest) ∧ result.1 = lexeme.piece ∧
    Faces source result.2 rest

theorem returns_piece {tag : Tag} {front : List Char} (begun : Faces source cursor text)
    (first : first? text = some (⟨tag, front⟩, rest)) (ended : Faces source next rest) :
    Returns (piece cursor.pos tag next) (Scanned source text) := by
  have pos : next.pos = cursor.pos + Text.byteSize front :=
    begun.pos_eq ended (first?_cuts first).2.symm
  refine .sub (by omega) ?_
  have size : next.pos - cursor.pos = Text.byteSize front := by omega
  exact .pure ⟨⟨tag, front⟩, rest, first, by rw [size]; rfl, ended⟩

theorem returns_single {tag : Tag} {front : List Char} (begun : Faces source cursor text)
    (first : first? text = some (⟨tag, front⟩, rest)) (ended : Faces source next (c :: rest))
    (low : c.toNat < 128) : Returns (single cursor.pos tag next) (Scanned source text) := by
  have advanced := ended.advance low
  apply advanced.moves
  exact returns_piece begun first advanced

end FragmentBounds.Checked
