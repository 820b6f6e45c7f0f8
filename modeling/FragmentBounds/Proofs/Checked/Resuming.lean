import FragmentBounds.Proofs.Checked.Extraction
import FragmentBounds.Proofs.Lexeme.Resuming

/-! The scanner at work on bytes, set down anywhere in a source. Inside a
character it takes the bytes that are left for what they are, one by one. -/
namespace FragmentBounds.Checked

variable {source : String} {pos : Nat}

/-- A call of `scan` gives the piece and moves past it. -/
structure Gives (cursor : Cursor) (piece : Piece) (after : Cursor) : Prop where
  given : scan cursor = .ok (piece, after)
  moved : after.pos = cursor.pos + piece.size

section Inside

private theorem inside_of_splitBytes? {text : List Char} (inside : pos ≤ Text.byteSize text)
    (none : Text.splitBytes? pos text = none) :
    ∃ front c back, text = front ++ c :: back ∧ Text.byteSize front < pos ∧
      pos < Text.byteSize front + c.utf8Size := by
  fun_induction Text.splitBytes? pos text with
  | case1 text => cases none
  | case2 count => simp at inside
  | case3 count c text fits ih =>
    rw [Text.byteSize_cons] at inside
    obtain ⟨front, d, back, rfl, before, behind⟩ := ih (by omega) (Option.map_eq_none_iff.mp none)
    refine ⟨c :: front, d, back, rfl, ?_, ?_⟩ <;> rw [Text.byteSize_cons] <;> omega
  | case4 count c text wide => exact ⟨[], c, text, rfl, Nat.succ_pos count, by simp; omega⟩

private theorem current_of_inside (fits : source.utf8ByteSize ≤ maxOffset)
    (inside : pos ≤ source.utf8ByteSize) (none : Text.splitBytes? pos source.toList = none) :
    128 ≤ (Cursor.mk source pos).current := by
  rw [← Text.byteSize_toList] at inside
  obtain ⟨front, c, back, parts, before, behind⟩ := inside_of_splitBytes? inside none
  have high : 128 ≤ c.toNat := by
    refine Nat.le_of_not_lt fun low => ?_
    have single := Faces.utf8Size_of_ascii low
    omega
  obtain ⟨count, rfl⟩ := Nat.exists_eq_add_of_lt before
  have short : count + 1 < (String.utf8EncodeChar c).length := by
    rw [String.length_utf8EncodeChar]
    omega
  have bytes : Text.bytes source.toList =
      Text.bytes front ++ (String.utf8EncodeChar c ++ Text.bytes back) := by
    rw [parts, Text.bytes_append, Text.bytes_cons]
  have rest : (Cursor.mk source (Text.byteSize front + count + 1)).rest =
      (String.utf8EncodeChar c)[count + 1] ::
        ((String.utf8EncodeChar c).drop (count + 2) ++ Text.bytes back) := by
    rw [Cursor.rest_of_fits fits, bytes, Nat.add_assoc, ← Text.length_bytes front,
      List.drop_length_add_append, List.drop_append_of_le_length (Nat.le_of_lt short), List.drop_eq_getElem_cons short]
    rfl
  rw [Cursor.current, Cursor.peek, rest]
  exact le_of_mem_encode high _ (List.getElem_mem short)

private theorem scan_inside (fits : source.utf8ByteSize ≤ maxOffset)
    (inside : pos < source.utf8ByteSize) (none : Text.splitBytes? pos source.toList = none) :
    scan ⟨source, pos⟩ = .ok (Scanner.strayPiece, ⟨source, pos + 1⟩) := by
  -- No byte inside a character is ASCII, and no character starts at one.
  have large := current_of_inside fits (Nat.le_of_lt inside) none
  have nonzero : ¬ ((Cursor.mk source pos).current == 0) := fun zero => by
    rw [beq_iff_eq.mp zero] at large
    exact absurd large (by decide)
  have char : (Cursor.mk source pos).currentChar? = Option.none := by
    rw [Cursor.currentChar?, none, Option.bind_none, ite_self]
  have next : (Cursor.mk source pos).advanceChar = ⟨source, pos + 1⟩ := by
    rw [Cursor.advanceChar, char]
    exact congrArg (Cursor.mk source) (Nat.min_eq_left (Nat.le_min.mpr ⟨inside, Nat.le_trans inside fits⟩))
  rw [scan, if_neg nonzero, if_pos large, nonAscii, char, if_neg (by simp), next, moved,
    if_neg (by dsimp only; omega)]
  change sub (pos + 1) pos >>= _ = _
  rw [sub, if_neg (by omega), Nat.add_sub_cancel_left]
  rfl

end Inside

/-- On bytes the scanner gives what it gives on characters, wherever it is set
down. -/
theorem scan_eq_next (fits : source.utf8ByteSize ≤ maxOffset) (inside : pos ≤ source.utf8ByteSize) :
    scan ⟨source, pos⟩ = .ok ((Scanner.ofText source.toList pos).next.1,
      ⟨source, (Scanner.ofText source.toList pos).next.2.pos⟩) := by
  rw [← Text.byteSize_toList] at inside
  obtain ⟨before, parts, size, outside⟩ := Text.resume_spec inside
  rw [Scanner.ofText_eq inside]
  cases stray : (Text.resume pos source.toList).1 with
  | succ stray =>
    have whole := congrArg Text.byteSize parts
    rw [Text.byteSize_append, Text.byteSize_toList] at whole
    exact scan_inside fits (by omega) (outside pos (Nat.le_refl _) (by omega))
  | zero =>
    have here : Faces source ⟨source, pos⟩ (Text.resume pos source.toList).2 :=
      ⟨fits, rfl, before, parts, by rw [size, stray, Nat.add_zero]⟩
    cases rest : (Text.resume pos source.toList).2 with
    | nil =>
      rw [rest] at here
      rw [scan_nil here, Scanner.next_of_isAtEnd rfl]
    | cons c rest =>
      rw [rest] at here
      obtain ⟨⟨piece, next⟩, scanned, lexeme, after, first, same, ahead⟩ := returns_scan here
      dsimp only at same ahead
      have place : next = ⟨source, pos + lexeme.byteSize⟩ := by
        have moved := here.pos_eq ahead (Lexeme.first?_cuts first).2.symm
        rw [← ahead.same, Lexeme.byteSize, ← moved]
      rw [scanned, Scanner.next, first, same, place]

def Abreast (source : String) (scanner : Scanner) (cursor : Cursor) : Prop :=
  ∃ pos ≤ source.utf8ByteSize, scanner = .ofText source.toList pos ∧ cursor = ⟨source, pos⟩

theorem Abreast.gives {scanner next : Scanner} {cursor : Cursor} {piece : Piece}
    (abreast : Abreast source scanner cursor) (fits : source.utf8ByteSize ≤ maxOffset)
    (gives : scanner.Gives piece next) :
    ∃ after, Gives cursor piece after ∧ Abreast source next after := by
  obtain ⟨pos, inside, rfl, rfl⟩ := abreast
  have within := inside
  rw [← Text.byteSize_toList] at within
  obtain ⟨found, place, same, ends⟩ := Scanner.gives_ofText within
  obtain ⟨rfl, rfl⟩ := Prod.mk.inj (gives.given.symm.trans same.given)
  have moved := gives.moved
  rw [Scanner.ofText_eq ends, Scanner.ofText_eq within] at moved
  refine ⟨⟨source, place⟩, ⟨?_, moved⟩, place, by rwa [← Text.byteSize_toList], rfl, rfl⟩
  rw [scan_eq_next fits inside, gives.given, Scanner.ofText_eq ends]

theorem Abreast.pos_eq {scanner : Scanner} {cursor : Cursor}
    (abreast : Abreast source scanner cursor) : cursor = ⟨source, scanner.pos⟩ := by
  obtain ⟨pos, inside, rfl, rfl⟩ := abreast
  rw [← Text.byteSize_toList] at inside
  rw [Scanner.ofText_eq inside]

/-- From any offset on, the scanner gives the same pieces on bytes as on
characters. -/
theorem exhausts_scan (fits : source.utf8ByteSize ≤ maxOffset) (inside : pos ≤ source.utf8ByteSize) :
    Exhausts Gives ⟨source, pos⟩ (Scanner.ofText source.toList pos).toList ⟨.endOfInput, 0⟩
      ⟨source, source.utf8ByteSize⟩ := by
  have within : pos ≤ Text.byteSize source.toList := by rwa [Text.byteSize_toList]
  obtain ⟨calls, ended⟩ := Scanner.exhausts_ofText within
  have begun : Abreast source (.ofText source.toList pos) ⟨source, pos⟩ := ⟨pos, inside, rfl, rfl⟩
  obtain ⟨last, follows, there⟩ := calls.simulate begun
    fun _ _ _ _ (same : Abreast source _ _) gives => same.gives fits gives
  obtain ⟨after, stays, still⟩ := there.gives fits ended
  rw [there.pos_eq, Text.byteSize_toList] at follows stays
  rw [still.pos_eq, Text.byteSize_toList] at stays
  exact ⟨follows, stays⟩

/-- From the start of the source on, the scanner gives the pieces on bytes, and then
the end for ever. -/
def Scans (source : String) (found : List Piece) : Prop :=
  Exhausts Gives (.ofSource source) found ⟨.endOfInput, 0⟩ ⟨source, source.utf8ByteSize⟩

theorem scans_pieces (fits : source.utf8ByteSize ≤ maxOffset) :
    Scans source (pieces source.toList) := by
  have start : Text.resume 0 source.toList = (0, source.toList) := Text.resume_append [] _
  have scans := exhausts_scan fits (Nat.zero_le _)
  rwa [Scanner.ofText_eq (Nat.zero_le _), start] at scans

section Tokens

def Hands (cursor : Cursor) (token : Token) (after : Cursor) : Prop :=
  nextToken cursor = .ok (token, after)

private theorem calls_nextToken {cursor : Cursor} {text : List Char} (here : Faces source cursor text) :
    Calls Hands cursor (tokensFrom cursor.pos (lexemes text)) ⟨source, source.utf8ByteSize⟩ := by
  fun_induction lexemes text generalizing cursor with
  | case1 text none =>
    obtain rfl := Lexeme.first?_eq_none.mp none
    have size := here.pos_add
    rw [here.size_eq, Text.byteSize_nil, Nat.add_zero] at size
    rw [← size, ← here.same]
    exact .nil _
  | case2 text lexeme rest first ih =>
    have more : text ≠ [] := fun none => by
      rw [Lexeme.first?_eq_none.mpr none] at first
      cases first
    obtain ⟨⟨token, next⟩, hands, other, after, also, same, ahead, moved⟩ :=
      returns_nextToken here more
    obtain ⟨rfl, rfl⟩ := Prod.mk.inj (Option.some.inj (first.symm.trans also))
    dsimp only at same ahead moved
    rw [tokensFrom, ← same, ← moved]
    exact .cons hands (ih ahead)

private theorem hands_endOfInput {cursor : Cursor} (ended : Faces source cursor []) :
    Hands cursor (.endOfInput cursor.pos) cursor := by
  have blank : Token.ofSpan cursor.source .endOfInput (.point cursor.pos) =
      .endOfInput cursor.pos := by
    rw [Token.ofSpan, Span.slice_point]
    rfl
  refine Returns.eq_ok ?_
  rw [nextToken, scan_nil ended, ← blank]
  exact .add ended.pos_le (.pure rfl)

theorem exhausts_nextToken (fits : source.utf8ByteSize ≤ maxOffset) :
    Exhausts Hands (.ofSource source) (tokens source) (.endOfInput source.utf8ByteSize)
      ⟨source, source.utf8ByteSize⟩ := by
  have begun := faces_ofSource fits
  have ended : Faces source ⟨source, source.utf8ByteSize⟩ [] := by
    refine begun.behind (List.append_nil _).symm rfl ?_
    rw [Text.byteSize_toList, Cursor.ofSource, Nat.zero_add]
  exact ⟨calls_nextToken begun, hands_endOfInput ended⟩

end Tokens

end FragmentBounds.Checked
