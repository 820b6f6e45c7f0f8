import FragmentBounds.Proofs.Checked.Symbols

/-! Blanks, comments, identifiers and characters out of place, as they are
scanned. -/
namespace FragmentBounds.Checked

open Lexeme

variable {source : String} {cursor first : Cursor} {text rest : List Char} {c : Char}

theorem returns_blanks (begun : Faces source cursor (c :: rest)) (blank : isBlank c) :
    Returns (blanks cursor.pos cursor) (Scanned source (c :: rest)) := by
  have passed := begun.eatBlanks
  rw [List.dropWhile_cons_of_pos blank] at passed
  apply passed.moves
  have found : trivia? (c :: rest) =
      some (⟨.trivia .whitespace, c :: rest.takeWhile isBlank⟩, rest.dropWhile isBlank) := by
    rcases isBlank_iff.mp blank with rfl | rfl <;> rfl
  exact returns_piece begun (first?_eq_some.mpr (.trivia found)) passed

theorem returns_carriageReturn (begun : Faces source cursor ('\r' :: rest)) :
    Returns (carriageReturn cursor.pos cursor) (Scanned source ('\r' :: rest)) := by
  have advanced := begun.advance (by decide)
  apply advanced.moves
  rcases advanced.look '\n' rfl with ⟨after, rfl, sees⟩ | ⟨blind, other⟩
  · rw [if_pos sees]
    have found : first? ('\r' :: '\n' :: after) = some (⟨.trivia .newline, ['\r', '\n']⟩, after) :=
      first?_eq_some.mpr (.trivia rfl)
    exact returns_single begun found advanced (by decide)
  · rw [if_neg blind]
    have found : trivia? ('\r' :: rest) = some (⟨.trivia .whitespace, ['\r']⟩, rest) := by
      cases rest with
      | nil => rfl
      | cons d rest =>
        have differs : d ≠ '\n' := fun same => other (by rw [same]; rfl)
        simp [trivia?, differs]
    exact returns_piece begun (first?_eq_some.mpr (.trivia found)) advanced

theorem returns_newline (begun : Faces source cursor ('\n' :: rest)) :
    Returns (single cursor.pos (.trivia .newline) cursor) (Scanned source ('\n' :: rest)) := by
  have found : first? ('\n' :: rest) = some (⟨.trivia .newline, ['\n']⟩, rest) :=
    first?_eq_some.mpr (.trivia rfl)
  exact returns_single begun found begun (by decide)

section Slash

variable {after : List Char}

private theorem returns_lineComment (begun : Faces source first ('/' :: '/' :: after))
    (here : Faces source cursor ('/' :: after)) :
    Returns (lineComment first.pos cursor) (Scanned source ('/' :: '/' :: after)) := by
  have passed := here.eatLine
  rw [List.dropWhile_cons_of_pos (by decide)] at passed
  apply passed.moves
  exact returns_piece begun (first?_eq_some.mpr (.trivia rfl)) passed

private theorem returns_blockComment (begun : Faces source first ('/' :: '*' :: after))
    (here : Faces source cursor ('*' :: after)) :
    Returns (blockComment first.pos cursor) (Scanned source ('/' :: '*' :: after)) := by
  have entered := here.advance (by decide)
  apply entered.moves
  obtain ⟨closed, passed⟩ := entered.eatCommentBody
  apply passed.moves
  have found : trivia? ('/' :: '*' :: after) = some (Lexeme.blockComment after) := rfl
  rw [closed]
  cases body : commentBody? after with
  | none =>
    rw [Lexeme.blockComment, body] at found
    rw [body] at passed
    exact returns_piece begun (first?_eq_some.mpr (.trivia found)) passed
  | some pair =>
    rw [Lexeme.blockComment, body] at found
    rw [body] at passed
    exact returns_piece begun (first?_eq_some.mpr (.trivia found)) passed

private theorem first?_of_slash (lineless : rest.head? ≠ some '/') (blockless : rest.head? ≠ some '*')
    {found : Lexeme × List Char} (symbol : symbol? ('/' :: rest) = some found) :
    first? ('/' :: rest) = some found := by
  apply first?_of_symbol? symbol
  · intro _ d next
    have head : rest.head? = some d := next
    exact ⟨fun same => lineless (by rw [head, same]), fun same => blockless (by rw [head, same])⟩
  · intro same
    cases same

theorem returns_slash (begun : Faces source cursor ('/' :: rest)) :
    Returns (slash cursor.pos cursor) (Scanned source ('/' :: rest)) := by
  have advanced := begun.advance (by decide)
  apply advanced.moves
  rcases advanced.look '/' rfl with ⟨after, rfl, sees⟩ | ⟨blind, lineless⟩
  · rw [if_pos sees]
    exact returns_lineComment begun advanced
  rw [if_neg blind]
  rcases advanced.look '*' rfl with ⟨after, rfl, sees⟩ | ⟨blind, blockless⟩
  · rw [if_pos sees]
    exact returns_blockComment begun advanced
  rw [if_neg blind]
  rcases advanced.look '=' rfl with ⟨after, rfl, sees⟩ | ⟨blind, unequal⟩
  · rw [if_pos sees]
    have found : symbol? (['/', '='] ++ after) =
        some (⟨.operator .compoundAssign, ['/', '=']⟩, after) :=
      symbol?_of_spells (by decide) (all_nil after)
    exact returns_single begun (first?_of_slash lineless blockless found) advanced (by decide)
  · rw [if_neg blind]
    have found : symbol? (['/'] ++ rest) = some (⟨.operator .slash, ['/']⟩, rest) :=
      symbol?_of_spells (by decide) (all_of_head?_ne unequal (all_nil rest))
    exact returns_piece begun (first?_of_slash lineless blockless found) advanced

end Slash

section Words

private theorem wordRound_eq (faces : Faces source cursor text) :
    (text = [] ∧ wordRound cursor () = .ok (.done cursor)) ∨ ∃ d rest, text = d :: rest ∧
      ((isLetterOrDigit d = false ∧ wordRound cursor () = .ok (.done cursor)) ∨
        isLetterOrDigit d ∧ ∃ next, Faces source next rest ∧
          wordRound cursor () = .ok (.more (next, ()))) := by
  cases text with
  | nil =>
    refine .inl ⟨rfl, ?_⟩
    have small : ¬(128 : UInt8) ≤ 0 := by decide
    rw [wordRound, faces.current_nil, if_neg (by decide), if_neg (by simp [small])]
    rfl
  | cons d rest =>
    refine .inr ⟨d, rest, rfl, ?_⟩
    rcases Nat.lt_or_ge d.toNat 128 with low | high
    · have seen := faces.current_of_ascii low
      have small : ¬128 ≤ cursor.current := by
        rw [seen]
        exact UInt8.not_le.mpr (toUInt8_lt low)
      rw [wordRound, seen, ascii_toUInt8 _ low, ← seen]
      cases goes : isLetterOrDigit d with
      | true =>
        rw [if_pos rfl, (faces.advance low).moved_eq]
        exact .inr ⟨rfl, _, faces.advance low, rfl⟩
      | false =>
        rw [if_neg (by simp), if_neg (by simp [small])]
        exact .inl ⟨rfl, rfl⟩
    · have large : 128 ≤ cursor.current := le_of_mem_encode high _ faces.current_mem
      rw [wordRound, ascii_of_le _ large, faces.currentChar?_eq, if_neg (by simp)]
      cases goes : isLetterOrDigit d with
      | true =>
        rw [if_pos (by simp [large, goes]), faces.advanceChar.moved_eq]
        exact .inr ⟨rfl, _, faces.advanceChar, rfl⟩
      | false =>
        rw [if_neg (by simp [goes])]
        exact .inl ⟨rfl, rfl⟩

theorem returns_wordLoop (begun : Faces source cursor rest) :
    Returns (loop wordRound cursor ()) fun next =>
      Faces source next (rest.dropWhile isLetterOrDigit) := by
  refine returns_loop (I := fun cursor _ => ∃ text, Faces source cursor text ∧
    text.dropWhile isLetterOrDigit = rest.dropWhile isLetterOrDigit) ?_ ⟨rest, begun, rfl⟩
  rintro cursor - ⟨text, faces, target⟩
  rcases wordRound_eq faces with ⟨rfl, round⟩ | ⟨d, after, rfl, ⟨stops, round⟩ | ⟨goes, next, ahead, round⟩⟩
  · rw [round, ← target]
    exact .pure faces
  · rw [round, ← target, List.dropWhile_cons_of_neg (by simp [stops])]
    exact .pure faces
  · rw [round]
    refine .pure ⟨⟨after, ahead, ?_⟩, faces.less ahead ?_⟩
    · rw [← target, List.dropWhile_cons_of_pos goes]
    · rw [Text.byteSize_cons]
      exact Nat.lt_add_of_pos_left d.utf8Size_pos

theorem returns_word (begun : Faces source cursor (c :: rest)) (letter : isLetter c)
    (plain : trivia? (c :: rest) = none) :
    Returns (word cursor.pos cursor) (Scanned source (c :: rest)) := by
  apply begun.advanceChar.moves
  apply (returns_wordLoop begun.advanceChar).bind
  intro next ended
  have found : word? (c :: rest) =
      some (⟨.identifier, c :: rest.takeWhile isLetterOrDigit⟩, rest.dropWhile isLetterOrDigit) := by
    rw [word?, if_pos letter]
  exact returns_piece begun (first?_eq_some.mpr (.word plain found)) ended

end Words

section Strays

def starters : List Char :=
  ['\n', '\r', ' ', '\t', '"', '\'', '\x60', '/', '+', '-', '*', '%', '^', '&', '|', '<', '>', '=', '!',
    ':', '.', '~', '(', ')', '[', ']', '\x7b', '\x7d', ',', ';']

theorem ne_of_stray {a : Char} (other : starters.contains c = false) (starter : starters.contains a) :
    c ≠ a := by
  intro same
  rw [same, starter] at other
  cases other

theorem trivia?_of_stray (other : starters.contains c = false) : trivia? (c :: rest) = none := by
  have differs {a : Char} (starter : starters.contains a) : c ≠ a := ne_of_stray other starter
  refine trivia?_eq_none.mpr ⟨differs rfl, differs rfl, ?_, fun same => absurd same (differs rfl)⟩
  rw [isBlank, beq_eq_false_iff_ne.mpr (differs rfl), beq_eq_false_iff_ne.mpr (differs rfl)]
  rfl

theorem first?_of_stray (letter : isLetter c = false) (digit : c.isDigit = false)
    (other : starters.contains c = false) :
    first? (c :: rest) = some (⟨.malformed .invalidCharacter, [c]⟩, rest) := by
  have differs {a : Char} (starter : starters.contains a) : c ≠ a := ne_of_stray other starter
  have unspelled : ofSpelling? [c] = none := by
    cases found : ofSpelling? [c] with
    | none => rfl
    | some tag =>
      have all : ∀ entry ∈ spellings, entry.1.head?.any starters.contains := by decide +kernel
      have starter := all _ (mem_spellings_of_ofSpelling? found)
      exact absurd rfl (differs starter)
  refine first?_eq_some.mpr (.stray (trivia?_of_stray other) (word?_eq_none.mpr letter) ?_ ?_ ?_ rfl)
  · exact numeral?_eq_none.mpr ⟨digit, fun same => absurd same (differs rfl)⟩
  · exact quoted?_eq_none.mpr ⟨differs rfl, differs rfl, differs rfl⟩
  · exact symbol?_eq_none.mpr unspelled

private theorem starters_of_le (high : 128 ≤ c.toNat) : starters.contains c = false := by
  cases starter : starters.contains c with
  | false => rfl
  | true =>
    have all : starters.all (·.toNat < 128) := by decide
    have low := List.all_eq_true.mp all c (by simpa using starter)
    exact absurd (of_decide_eq_true low) (Nat.not_lt.mpr high)

theorem returns_nonAscii (begun : Faces source cursor (c :: rest)) (high : 128 ≤ c.toNat) :
    Returns (nonAscii cursor.pos cursor) (Scanned source (c :: rest)) := by
  have seen : cursor.currentChar? = some c := begun.currentChar?_eq
  have other := starters_of_le high
  rw [nonAscii, seen, Option.any_some]
  cases letter : Text.isAlphabetic c with
  | true =>
    rw [if_pos rfl]
    exact returns_word begun (by simp [isLetter, letter]) (trivia?_of_stray other)
  | false =>
    rw [if_neg (by simp)]
    apply begun.advanceChar.moves
    have wordless : isLetter c = false := by
      rw [isLetter, letter, beq_eq_false_iff_ne.mpr (ne_of_le high (by decide))]
      rfl
    have digitless : c.isDigit = false := by
      cases digit : c.isDigit with
      | false => rfl
      | true => exact absurd (plain_isDigit c digit) (Nat.not_lt.mpr high)
    exact returns_piece begun (first?_of_stray wordless digitless other) begun.advanceChar

end Strays

end FragmentBounds.Checked
