import FragmentBounds.Proofs.Checked.Quoted
import FragmentBounds.Proofs.Checked.Words

/-! Whatever is in front of it, the scanner gets to the end of a piece, and the
piece is that of the first lexeme. -/
namespace FragmentBounds.Checked

open Lexeme

variable {source : String} {cursor : Cursor} {rest : List Char} {c : Char}

theorem scan_nil (ended : Faces source cursor []) : scan cursor = .ok (⟨.endOfInput, 0⟩, cursor) := by
  rw [scan, ended.current_nil, if_pos (by decide), zero, if_pos (ended.isAtEnd_iff.mpr rfl)]

private theorem returns_others (begun : Faces source cursor (c :: rest)) (low : c.toNat < 128)
    (other : starters.contains c = false) :
    Returns ((if isLetter c then word cursor.pos else if c.isDigit then numeral cursor.pos
      else single cursor.pos (.malformed .invalidCharacter)) cursor) (Scanned source (c :: rest)) := by
  cases letter : isLetter c with
  | true =>
    rw [if_pos rfl]
    exact returns_word begun letter (trivia?_of_stray other)
  | false =>
    rw [if_neg (by simp)]
    cases digit : c.isDigit with
    | true =>
      rw [if_pos rfl]
      exact returns_numeral begun digit
    | false =>
      rw [if_neg (by simp)]
      exact returns_single begun (first?_of_stray letter digit other) begun low

theorem returns_scanAscii (begun : Faces source cursor (c :: rest)) (low : c.toNat < 128) :
    Returns (scanAscii cursor.pos c cursor) (Scanned source (c :: rest)) := by
  unfold scanAscii
  split
  · exact returns_blanks begun rfl
  · exact returns_blanks begun rfl
  · exact returns_carriageReturn begun
  · exact returns_newline begun
  · exact returns_string begun
  · exact returns_rune begun
  · exact returns_rawString begun
  · exact returns_slash begun
  · exact returns_doubled begun rfl rfl (by decide) (by decide) (by decide)
  · exact returns_doubled begun rfl rfl (by decide) (by decide) (by decide)
  · exact returns_withEquals begun low rfl (by decide) (by decide)
  · exact returns_withEquals begun low rfl (by decide) (by decide)
  · exact returns_withEquals begun low rfl (by decide) (by decide)
  · exact returns_ampersand begun
  · exact returns_doubled begun rfl rfl (by decide) (by decide) (by decide)
  · exact returns_less begun
  · exact returns_greater begun
  · exact returns_withEquals begun low rfl (by decide) (by decide)
  · exact returns_withEquals begun low rfl (by decide) (by decide)
  · exact returns_withEquals begun low rfl (by decide) (by decide)
  · exact returns_dot begun
  iterate 9 exact returns_lone begun low rfl (by decide)
  · apply returns_others begun low
    simp_all [starters]

private theorem returns_zero (begun : Faces source cursor ('\x00' :: rest)) :
    Returns (zero cursor.pos cursor) (Scanned source ('\x00' :: rest)) := by
  have inside : ¬cursor.isAtEnd := fun ended => by cases begun.isAtEnd_iff.mp ended
  have found : first? ('\x00' :: rest) = some (⟨.malformed .invalidCharacter, ['\x00']⟩, rest) :=
    first?_of_stray (by decide) (by decide) (by decide)
  rw [zero, if_neg inside]
  exact returns_single begun found begun (by decide)

theorem returns_scan (begun : Faces source cursor (c :: rest)) :
    Returns (scan cursor) (Scanned source (c :: rest)) := by
  rw [scan]
  rcases Nat.lt_or_ge c.toNat 128 with low | high
  · rw [begun.current_of_ascii low, ofNat_toUInt8 low]
    cases none : c.toUInt8 == 0 with
    | true =>
      have same : c = '\x00' := by
        rw [← ofNat_toUInt8 low, beq_iff_eq.mp none]
        rfl
      subst same
      rw [if_pos rfl]
      exact returns_zero begun
    | false =>
      have small : ¬128 ≤ c.toUInt8 := UInt8.not_le.mpr (toUInt8_lt low)
      rw [if_neg (by simp), if_neg small]
      exact returns_scanAscii begun low
  · have large : 128 ≤ cursor.current := le_of_mem_encode high _ begun.current_mem
    have nonzero : ¬(cursor.current == 0) := fun zero => by
      rw [beq_iff_eq.mp zero] at large
      exact absurd large (by decide)
    rw [if_neg nonzero, if_pos large]
    exact returns_nonAscii begun high

end FragmentBounds.Checked
