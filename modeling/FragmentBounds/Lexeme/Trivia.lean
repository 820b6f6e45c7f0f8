import FragmentBounds.Lexeme.Basic

/-! Trivia: blanks, line breaks and comments. A line comment ends before the
line feed; a block comment ends with the first closing mark after its opening. -/
namespace FragmentBounds.Lexeme

def isBlank (c : Char) : Bool := c == ' ' || c == '\t'

def commentBody? : List Char → Option (List Char × List Char)
  | [] => none
  | '*' :: '/' :: rest => some (['*', '/'], rest)
  | c :: text => (commentBody? text).map fun (body, rest) => (c :: body, rest)

def blockComment (text : List Char) : Lexeme × List Char :=
  match commentBody? text with
  | some (body, rest) => (⟨.trivia .blockComment, '/' :: '*' :: body⟩, rest)
  | none => (⟨.malformed .unterminatedComment, '/' :: '*' :: text⟩, [])

def trivia? : Reader
  | [] => none
  | '\n' :: rest => some (⟨.trivia .newline, ['\n']⟩, rest)
  | '\r' :: '\n' :: rest => some (⟨.trivia .newline, ['\r', '\n']⟩, rest)
  | '\r' :: rest => some (⟨.trivia .whitespace, ['\r']⟩, rest)
  | '/' :: '/' :: text =>
    some (⟨.trivia .lineComment, '/' :: '/' :: text.takeWhile (· != '\n')⟩,
      text.dropWhile (· != '\n'))
  | '/' :: '*' :: text => some (blockComment text)
  | c :: text =>
    if isBlank c then
      some (⟨.trivia .whitespace, c :: text.takeWhile isBlank⟩, text.dropWhile isBlank)
    else none

theorem commentBody?_append {text body rest : List Char}
    (closed : commentBody? text = some (body, rest)) : body ++ rest = text := by
  fun_induction commentBody? text generalizing body with
  | case1 => simp at closed
  | case2 =>
    cases closed
    rfl
  | case3 c text _ ih =>
    obtain ⟨⟨inner, after⟩, closed, same⟩ := Option.map_eq_some_iff.mp closed
    cases same
    simpa using ih closed

theorem blockComment_cuts (text : List Char) :
    (blockComment text).1.text ≠ [] ∧
      (blockComment text).1.text ++ (blockComment text).2 = '/' :: '*' :: text := by
  unfold blockComment
  split
  · next closed => simpa using commentBody?_append closed
  · simp

theorem trivia?_cuts : Cuts trivia? := by
  intro text lexeme rest first
  unfold trivia? at first
  split at first
  · simp at first
  · cases first
    simp
  · cases first
    simp
  · cases first
    simp
  · cases first
    simp [List.takeWhile_append_dropWhile]
  · next text =>
    have whole := blockComment_cuts text
    rwa [Option.some.inj first] at whole
  · split at first
    · cases first
      simp [List.takeWhile_append_dropWhile]
    · simp at first

end FragmentBounds.Lexeme
