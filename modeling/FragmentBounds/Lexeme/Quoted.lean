import FragmentBounds.Lexeme.Numeral

/-! Strings, raw strings and runes. Between its quotes a string or a rune is a
sequence of units, each a plain character or an escape; neither spans lines. -/
namespace FragmentBounds.Lexeme

def isOctalDigit (c : Char) : Bool := decide ('0' ≤ c ∧ c ≤ '7')

def runUpTo : (limit : Nat) → (p : Char → Bool) → List Char → List Char × List Char
  | 0, _, text => ([], text)
  | _ + 1, _, [] => ([], [])
  | limit + 1, p, c :: text =>
    if p c then
      let (run, rest) := runUpTo limit p text
      (c :: run, rest)
    else ([], c :: text)

def hexWidth (c : Char) : Nat :=
  if c == 'x' then 2 else if c == 'u' then 4 else if c == 'U' then 8 else 0

/-- What belongs to an escape after its backslash. A line feed never does, so
the literal ends there unterminated. -/
def escape : List Char → List Char × List Char
  | [] => ([], [])
  | c :: text =>
    if c == '\n' then ([], c :: text)
    else if isOctalDigit c then runUpTo 3 isOctalDigit (c :: text)
    else
      let (digits, rest) := runUpTo (hexWidth c) isHexDigit text
      (c :: digits, rest)

/-- The next unit of a literal, if neither its quote, the end of the line nor
the end of the text comes first. -/
def unit? (quote : Char) : List Char → Option (List Char × List Char)
  | [] => none
  | c :: text =>
    if c == quote || c == '\n' then none
    else if c == '\\' then some (c :: (escape text).1, (escape text).2)
    else some ([c], text)

theorem runUpTo_append (limit : Nat) (p : Char → Bool) (text : List Char) :
    (runUpTo limit p text).1 ++ (runUpTo limit p text).2 = text := by
  fun_induction runUpTo limit p text <;> simp_all

theorem escape_append (text : List Char) : (escape text).1 ++ (escape text).2 = text := by
  unfold escape
  split
  · rfl
  · split
    · rfl
    · split
      · exact runUpTo_append ..
      · simp [runUpTo_append]

theorem unit?_append {quote : Char} {text unit rest : List Char}
    (first : unit? quote text = some (unit, rest)) : unit ≠ [] ∧ unit ++ rest = text := by
  unfold unit? at first
  split at first
  · simp at first
  · split at first
    · simp at first
    · split at first
      · cases first
        simp [escape_append]
      · cases first
        simp

theorem unit?_length_lt {quote : Char} {text unit rest : List Char}
    (first : unit? quote text = some (unit, rest)) : rest.length < text.length := by
  obtain ⟨nonempty, whole⟩ := unit?_append first
  have := List.length_pos_iff.mpr nonempty
  simp only [← whole, List.length_append]
  omega

def units (quote : Char) (text : List Char) : List (List Char) × List Char :=
  match _ : unit? quote text with
  | none => ([], text)
  | some (unit, rest) =>
    let (content, after) := units quote rest
    (unit :: content, after)
termination_by text.length
decreasing_by exact unit?_length_lt ‹_›

def string (text : List Char) : Lexeme × List Char :=
  let content := (units '"' text).1.flatten
  match (units '"' text).2 with
  | '"' :: rest => (⟨.literal .string, '"' :: content ++ ['"']⟩, rest)
  | rest => (⟨.malformed .unterminatedString, '"' :: content⟩, rest)

/-- The rune whose opening quote stands before the text. Only one unit makes it
a proper rune. -/
def rune (text : List Char) : Lexeme × List Char :=
  let content := (units '\'' text).1
  match (units '\'' text).2 with
  | '\'' :: rest =>
    let tag := if content.length = 1 then .literal .rune else .malformed .invalidRune
    (⟨tag, '\'' :: content.flatten ++ ['\'']⟩, rest)
  | rest => (⟨.malformed .unterminatedRune, '\'' :: content.flatten⟩, rest)

def rawString (text : List Char) : Lexeme × List Char :=
  let content := text.takeWhile (· != '\x60')
  match text.dropWhile (· != '\x60') with
  | quote :: rest => (⟨.literal .rawString, '\x60' :: content ++ [quote]⟩, rest)
  | [] => (⟨.malformed .unterminatedRawString, '\x60' :: content⟩, [])

def quoted? : Reader
  | '"' :: text => some (string text)
  | '\'' :: text => some (rune text)
  | '\x60' :: text => some (rawString text)
  | _ => none

theorem units_append (quote : Char) (text : List Char) :
    (units quote text).1.flatten ++ (units quote text).2 = text := by
  fun_induction units quote text with
  | case1 => rfl
  | case2 text unit rest first content after more ih =>
    rw [more] at ih
    simp [ih, (unit?_append first).2]

theorem string_append (text : List Char) :
    (string text).1.text ≠ [] ∧ (string text).1.text ++ (string text).2 = '"' :: text := by
  have whole := units_append '"' text
  unfold string
  split
  · next closed => simpa [closed] using whole
  · simpa using whole

theorem rune_append (text : List Char) :
    (rune text).1.text ≠ [] ∧ (rune text).1.text ++ (rune text).2 = '\'' :: text := by
  have whole := units_append '\'' text
  unfold rune
  split
  · next closed => simpa [closed] using whole
  · simpa using whole

theorem rawString_append (text : List Char) :
    (rawString text).1.text ≠ [] ∧
      (rawString text).1.text ++ (rawString text).2 = '\x60' :: text := by
  have whole := List.takeWhile_append_dropWhile (p := (· != '\x60')) (l := text)
  unfold rawString
  split
  · next closed => simpa [closed] using whole
  · next unclosed => simpa [unclosed] using whole

theorem quoted?_cuts : Cuts quoted? := by
  intro text lexeme rest first
  unfold quoted? at first
  split at first
  · next text => simpa [Option.some.inj first] using string_append text
  · next text => simpa [Option.some.inj first] using rune_append text
  · next text => simpa [Option.some.inj first] using rawString_append text
  · simp at first

end FragmentBounds.Lexeme
