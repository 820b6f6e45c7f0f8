import FragmentBounds.Proofs.Checked.Numerals

/-! Strings, raw strings and runes as they are scanned: in rounds, each of which
skips what needs no care and then takes in an escape. -/
namespace FragmentBounds.Checked

open Lexeme

variable {source : String} {cursor first : Cursor} {text rest : List Char} {c quote : Char}

section Escape

private theorem returns_hexEscape (here : Faces source cursor (c :: rest)) (low : c.toNat < 128)
    (limit : Nat) :
    Returns (hexEscape limit cursor) fun next =>
      Faces source next (runUpTo limit isHexDigit rest).2 := by
  have advanced := here.advance low
  apply advanced.moves
  have passed := advanced.eatUpTo plain_isHexDigit limit
  exact passed.returns_moved passed

private theorem returns_shortEscape (here : Faces source cursor (c :: rest)) (width : hexWidth c = 0) :
    Returns (shortEscape cursor) fun next => Faces source next (Lexeme.escape (c :: rest)).2 := by
  have feed : (cursor.current == '\n'.toUInt8) = (c == '\n') := here.current_beq rfl
  have inside : ¬cursor.isAtEnd := fun ended => by cases here.isAtEnd_iff.mp ended
  rw [shortEscape, here.ascii_current plain_isOctalDigit (by decide), List.head?_cons,
    Option.any_some, feed, if_neg inside, Lexeme.escape]
  cases octal : isOctalDigit c with
  | true =>
    have differs : (c == '\n') = false := by
      rw [beq_eq_false_iff_ne]
      rintro rfl
      cases octal
    have passed := here.eatUpTo plain_isOctalDigit 3
    rw [if_pos rfl, differs, if_neg (by simp), if_pos rfl]
    exact passed.returns_moved passed
  | false =>
    rw [if_neg (by simp), if_neg (by simp : ¬false = true)]
    cases c == '\n' with
    | true =>
      rw [if_pos rfl, if_pos rfl]
      exact .pure here
    | false =>
      rw [if_neg (by simp), if_neg (by simp), width]
      exact here.advanceChar.returns_moved here.advanceChar

theorem returns_escape (here : Faces source cursor rest) :
    Returns (escape cursor) fun next => Faces source next (Lexeme.escape rest).2 := by
  rw [escape]
  rcases here.look 'x' rfl with ⟨after, rfl, sees⟩ | ⟨blind, notTwo⟩
  · rw [if_pos sees]
    exact returns_hexEscape here (by decide) 2
  rw [if_neg blind]
  rcases here.look 'u' rfl with ⟨after, rfl, sees⟩ | ⟨blind, notFour⟩
  · rw [if_pos sees]
    exact returns_hexEscape here (by decide) 4
  rw [if_neg blind]
  rcases here.look 'U' rfl with ⟨after, rfl, sees⟩ | ⟨blind, notEight⟩
  · rw [if_pos sees]
    exact returns_hexEscape here (by decide) 8
  rw [if_neg blind]
  cases rest with
  | nil =>
    rw [shortEscape, here.current_nil, if_neg (by decide), if_neg (by decide),
      if_pos (here.isAtEnd_iff.mpr rfl)]
    exact .pure here
  | cons d after =>
    have differs {a : Char} (other : (d :: after).head? ≠ some a) : (d == a) = false :=
      beq_eq_false_iff_ne.mpr fun same => other (by rw [same]; rfl)
    have width : hexWidth d = 0 := by
      simp [hexWidth, differs notTwo, differs notFour, differs notEight]
    exact returns_shortEscape here width

end Escape

section Units

def isDelimiter (quote c : Char) : Bool := c == quote || c == '\\' || c == '\n'

theorem units_eq_skip (quote : Char) (text : List Char) :
    units quote text =
      ((text.takeWhile fun c => !isDelimiter quote c).map ([·]) ++
        (units quote (text.dropWhile fun c => !isDelimiter quote c)).1,
        (units quote (text.dropWhile fun c => !isDelimiter quote c)).2) := by
  induction text with
  | nil => rfl
  | cons c text ih =>
    cases delimits : isDelimiter quote c with
    | true => simp [delimits]
    | false =>
      have plain : unit? quote (c :: text) = some ([c], text) := by
        simp only [isDelimiter, Bool.or_eq_false_iff] at delimits
        obtain ⟨⟨other, unescaped⟩, inside⟩ := delimits
        rw [unit?, other, inside, unescaped]
        rfl
      rw [List.takeWhile_cons_of_pos (by simp [delimits]), List.dropWhile_cons_of_pos (by simp [delimits]),
        units_of_unit? plain, ih]
      rfl

theorem units_escape (quoteless : quote ≠ '\\') (text : List Char) :
    units quote ('\\' :: text) =
      (('\\' :: (Lexeme.escape text).1) :: (units quote (Lexeme.escape text).2).1,
        (units quote (Lexeme.escape text).2).2) := by
  apply units_of_unit?
  simp [unit?, quoteless.symm]

theorem length_units_le (quote : Char) (text : List Char) :
    (units quote text).1.length ≤ Text.byteSize text := by
  fun_induction units quote text with
  | case1 => exact Nat.zero_le _
  | case2 text unit rest next content after same ih =>
    obtain ⟨nonempty, whole⟩ := unit?_append next
    have positive := Nat.pos_of_ne_zero fun zero => nonempty (Text.byteSize_eq_zero.mp zero)
    rw [same] at ih
    rw [← whole, Text.byteSize_append, List.length_cons]
    exact Nat.add_comm .. ▸ Nat.add_le_add positive ih

theorem units_of_escapeless
    (escapeless : (text.dropWhile fun c => !isDelimiter quote c).head? ≠ some '\\') :
    units quote text = ((text.takeWhile fun c => !isDelimiter quote c).map ([·]),
      text.dropWhile fun c => !isDelimiter quote c) := by
  have delimits := List.head?_dropWhile_not (fun c => !isDelimiter quote c) text
  rw [units_eq_skip]
  generalize text.dropWhile (fun c => !isDelimiter quote c) = tail at escapeless delimits ⊢
  have ended : unit? quote tail = none := by
    cases tail with
    | nil => rfl
    | cons d tail =>
      have unescaped : (d == '\\') = false :=
        beq_eq_false_iff_ne.mpr fun same => escapeless (by rw [same]; rfl)
      simp only [List.head?_cons, Bool.not_eq_false', isDelimiter, unescaped, Bool.or_false] at delimits
      rw [unit?, delimits]
      rfl
  rw [units_of_ended ended, List.append_nil]

theorem byteSize_escape_lt {after : List Char}
    (escaped : text.dropWhile (fun c => !isDelimiter quote c) = '\\' :: after) :
    Text.byteSize (Lexeme.escape after).2 < Text.byteSize text := by
  have whole := List.takeWhile_append_dropWhile (p := fun c => !isDelimiter quote c) (l := text)
  have size : Text.byteSize ((Lexeme.escape after).1 ++ (Lexeme.escape after).2) =
      Text.byteSize after := by rw [escape_append]
  rw [← whole, escaped, Text.byteSize_append, Text.byteSize_cons]
  rw [Text.byteSize_append] at size
  have positive := ('\\').utf8Size_pos
  omega

end Units

section Literals

private theorem string_of_closed {after : List Char} (closed : (units '"' rest).2 = '"' :: after) :
    Lexeme.string rest = (⟨.literal .string, '"' :: (units '"' rest).1.flatten ++ ['"']⟩, after) := by
  simp only [Lexeme.string, closed]

private theorem string_of_open (unclosed : (units '"' rest).2.head? ≠ some '"') :
    Lexeme.string rest =
      (⟨.malformed .unterminatedString, '"' :: (units '"' rest).1.flatten⟩, (units '"' rest).2) := by
  unfold Lexeme.string
  split
  · next closed => exact absurd (by rw [closed]; rfl) unclosed
  · rfl

/-- Inside a string its units go on as they do from its start. -/
def InString (source : String) (rest : List Char) (cursor : Cursor) (_ : Unit) : Prop :=
  ∃ text, Faces source cursor text ∧ (units '"' text).2 = (units '"' rest).2

private theorem returns_stringRound (begun : Faces source first ('"' :: rest))
    (inside : InString source rest cursor ()) :
    Returns (stringRound first.pos cursor ())
      (Rounds (InString source rest) (Scanned source ('"' :: rest)) cursor) := by
  obtain ⟨text, here, same⟩ := inside
  -- Up to the next delimiter every character is a unit. An escape starts another round,
  -- and anything else is the end of the units.
  have found : first? ('"' :: rest) = some (Lexeme.string rest) := first?_of_quoted? (by simp) rfl
  have skipped : Faces source _ (text.dropWhile fun c => !isDelimiter '"' c) :=
    here.skipToDelimiter (by decide)
  have byte : (cursor.skipToDelimiter '"'.toUInt8).1 = (cursor.skipToDelimiter '"'.toUInt8).2.current :=
    rfl
  apply skipped.moves
  rw [byte]
  rcases skipped.look '\\' rfl with ⟨after, escaped, sees⟩ | ⟨plain, escapeless⟩
  · rw [if_neg (by rw [beq_iff_eq.mp sees]; decide), if_pos sees]
    rw [escaped] at skipped
    have advanced := skipped.advance (by decide)
    apply advanced.moves
    refine (returns_escape advanced).bind fun next ahead => .pure ⟨⟨_, ahead, ?_⟩, ?_⟩
    · rw [← same, units_eq_skip '"' text, escaped, units_escape (by decide)]
    · exact here.less ahead (byteSize_escape_lt escaped)
  have target : text.dropWhile (fun c => !isDelimiter '"' c) = (units '"' rest).2 := by
    rw [← same, units_of_escapeless escapeless]
  rcases skipped.look '"' rfl with ⟨after, closed, sees⟩ | ⟨blind, unclosed⟩
  · rw [if_pos sees]
    rw [closed] at skipped target
    rw [string_of_closed target.symm] at found
    exact (returns_single begun found skipped (by decide)).map fun _ scanned => scanned
  · rw [if_neg blind, if_neg plain]
    rw [target] at skipped unclosed
    rw [string_of_open unclosed] at found
    exact (returns_piece begun found skipped).map fun _ scanned => scanned

theorem returns_string (begun : Faces source cursor ('"' :: rest)) :
    Returns (string cursor.pos cursor) (Scanned source ('"' :: rest)) := by
  have advanced := begun.advance (by decide)
  apply advanced.moves
  exact returns_loop (fun _ _ => returns_stringRound begun) ⟨rest, advanced, rfl⟩

private theorem rune_of_closed {after : List Char} (closed : (units '\'' rest).2 = '\'' :: after) :
    Lexeme.rune rest = (⟨if (units '\'' rest).1.length = 1 then .literal .rune
      else .malformed .invalidRune, '\'' :: (units '\'' rest).1.flatten ++ ['\'']⟩, after) := by
  simp only [Lexeme.rune, closed]

private theorem rune_of_open (unclosed : (units '\'' rest).2.head? ≠ some '\'') :
    Lexeme.rune rest =
      (⟨.malformed .unterminatedRune, '\'' :: (units '\'' rest).1.flatten⟩, (units '\'' rest).2) := by
  unfold Lexeme.rune
  split
  · next closed => exact absurd (by rw [closed]; rfl) unclosed
  · rfl

/-- Inside a rune its units go on as they do from its start, and those behind are
counted. -/
def InRune (source : String) (rest : List Char) (cursor : Cursor) (count : Nat) : Prop :=
  ∃ text, Faces source cursor text ∧ (units '\'' text).2 = (units '\'' rest).2 ∧
    count + (units '\'' text).1.length = (units '\'' rest).1.length

private theorem returns_runeRound {count : Nat} (begun : Faces source first ('\'' :: rest))
    (inside : InRune source rest cursor count) :
    Returns (runeRound first.pos cursor count)
      (Rounds (InRune source rest) (Scanned source ('\'' :: rest)) cursor) := by
  obtain ⟨text, here, same, counted⟩ := inside
  have found : first? ('\'' :: rest) = some (Lexeme.rune rest) := first?_of_quoted? (by simp) rfl
  -- The count never passes the number of units, and each of them has a byte.
  have few : (units '\'' rest).1.length ≤ maxOffset :=
    Nat.le_trans (length_units_le '\'' rest) begun.byteSize_tail_le
  have skipped : Faces source _ (text.dropWhile fun c => !isDelimiter '\'' c) :=
    here.skipToDelimiter (by decide)
  have byte : (cursor.skipToDelimiter '\''.toUInt8).1 = (cursor.skipToDelimiter '\''.toUInt8).2.current :=
    rfl
  apply skipped.moves
  apply (here.returns_sliceFrom skipped List.takeWhile_append_dropWhile.symm).bind
  rintro _ rfl
  rw [byte, String.length_ofList]
  rcases skipped.look '\\' rfl with ⟨after, escaped, sees⟩ | ⟨plain, escapeless⟩
  · rw [units_eq_skip '\'' text, escaped, units_escape (by decide)] at same counted
    simp only [List.length_append, List.length_map, List.length_cons] at counted
    refine .add (by omega) ?_
    rw [if_neg (by rw [beq_iff_eq.mp sees]; decide), if_pos sees]
    rw [escaped] at skipped
    have advanced := skipped.advance (by decide)
    apply advanced.moves
    apply (returns_escape advanced).bind
    intro next ahead
    refine .add (by omega) ?_
    refine .pure ⟨⟨_, ahead, same, ?_⟩, here.less ahead (byteSize_escape_lt escaped)⟩
    omega
  rw [units_of_escapeless escapeless, List.length_map] at counted
  have target : text.dropWhile (fun c => !isDelimiter '\'' c) = (units '\'' rest).2 := by
    rw [← same, units_of_escapeless escapeless]
  refine .add (counted ▸ few) ?_
  rcases skipped.look '\'' rfl with ⟨after, closed, sees⟩ | ⟨blind, unclosed⟩
  · rw [if_pos sees, counted]
    rw [closed] at skipped target
    rw [rune_of_closed target.symm] at found
    exact (returns_single begun found skipped (by decide)).map fun _ scanned => scanned
  · rw [if_neg blind, if_neg plain]
    rw [target] at skipped unclosed
    rw [rune_of_open unclosed] at found
    exact (returns_piece begun found skipped).map fun _ scanned => scanned

theorem returns_rune (begun : Faces source cursor ('\'' :: rest)) :
    Returns (rune cursor.pos cursor) (Scanned source ('\'' :: rest)) := by
  have advanced := begun.advance (by decide)
  apply advanced.moves
  exact returns_loop (fun _ _ => returns_runeRound begun) ⟨rest, advanced, rfl, Nat.zero_add _⟩

theorem returns_rawString (begun : Faces source cursor ('\x60' :: rest)) :
    Returns (rawString cursor.pos cursor) (Scanned source ('\x60' :: rest)) := by
  have found : first? ('\x60' :: rest) = some (Lexeme.rawString rest) := first?_of_quoted? (by simp) rfl
  have advanced := begun.advance (by decide)
  apply advanced.moves
  have passed := advanced.eatUntil (by decide : '\x60'.toNat < 128)
  apply passed.moves
  refine .sub (Nat.le_add_right ..) ?_
  cases closed : rest.dropWhile (· != '\x60') with
  | nil =>
    rw [closed] at passed
    rw [if_pos (passed.isAtEnd_iff.mpr rfl)]
    simp only [Lexeme.rawString, closed] at found
    exact returns_piece begun found passed
  | cons quote after =>
    rw [closed] at passed
    have inside : ¬(cursor.advance.eatUntil '\x60'.toUInt8).2.isAtEnd := fun ended => by
      cases passed.isAtEnd_iff.mp ended
    rw [if_neg inside]
    simp only [Lexeme.rawString, closed] at found
    have low : quote.toNat < 128 := by
      have stops := List.head?_dropWhile_not (· != '\x60') rest
      rw [closed] at stops
      have same : quote = '\x60' := by simpa using stops
      rw [same]
      decide
    exact returns_single begun found passed low

end Literals

end FragmentBounds.Checked
