import FragmentBounds.Lexeme.Sequence

/-! What may follow a lexeme. Apart from comments and literals that are never
closed, the characters of a lexeme and the one behind them settle it; only the
point needs a second one, to tell it from the spread mark. -/
namespace FragmentBounds.Lexeme

/-- The text is empty or starts with a character that satisfies `p`. -/
def Next (p : Char → Prop) (text : List Char) : Prop := ∀ c ∈ text.head?, p c

def separators : List Char := [' ', '\t', '\n', '\r', '(', ')', '[', ']', '{', '}', ',', ';']

def separates (c : Char) : Bool := separators.contains c

/-- Whether a lexeme with this tag ends before a character, whatever comes
after it. -/
def endsBefore (tag : Tag) (c : Char) : Bool :=
  match tag with
  | .identifier | .literal .int | .literal .float | .literal .imaginary | .operator _ | .dot =>
    separates c
  | .colon => c != '='
  | .trivia .whitespace => !isBlank c && c != '\n'
  | .trivia .lineComment | .malformed .unterminatedString | .malformed .unterminatedRune =>
    c == '\n'
  | .malformed .unterminatedRawString | .malformed .unterminatedComment => false
  | _ => true

/-- A lexeme in front of `rest` is not changed by putting `other` there. -/
def Keeps (tag : Tag) (rest other : List Char) : Prop :=
  (other.head? = rest.head? ∧ (tag = .dot → ¬ ['.', '.'] <+: other)) ∨
    Next (fun c => endsBefore tag c) other

/-- The same first character, or one that separates. -/
def Look (rest other : List Char) : Prop :=
  other.head? = rest.head? ∨ Next (fun c => separates c) other

@[simp] theorem next_nil (p : Char → Prop) : Next p [] := by simp [Next]

@[simp] theorem next_cons {p : Char → Prop} {c : Char} {text : List Char} :
    Next p (c :: text) ↔ p c := by simp [Next]

theorem Next.imp {p q : Char → Prop} {text : List Char} (next : Next p text)
    (weaker : ∀ c, p c → q c) : Next q text := fun c first => weaker c (next c first)

theorem Next.congr {p : Char → Prop} {text other : List Char} (next : Next p text)
    (same : other.head? = text.head?) : Next p other := by
  rw [Next, same]
  exact next

theorem Next.append {p : Char → Prop} {front back : List Char} (first : Next p front)
    (second : Next p back) : Next p (front ++ back) := by
  cases front with
  | nil => exact second
  | cons c front => exact next_cons.mpr (next_cons.mp first)

theorem Look.next {p : Char → Prop} {rest other : List Char} (look : Look rest other)
    (next : Next p rest) (outside : ∀ c, separates c → p c) : Next p other := by
  rcases look with same | separated
  · exact next.congr same
  · exact separated.imp outside

theorem Look.append {rest other : List Char} (look : Look rest other) (front : List Char) :
    Look (front ++ rest) (front ++ other) := by
  cases front with
  | nil => exact look
  | cons c front => exact .inl rfl

theorem next_dropWhile (p : Char → Bool) (text : List Char) :
    Next (fun c => p c = false) (text.dropWhile p) := by
  intro c first
  have stopped := List.head?_dropWhile_not p text
  rw [Option.mem_def.mp first] at stopped
  simpa using stopped

theorem of_mem_takeWhile {p : Char → Bool} {text : List Char} {c : Char}
    (member : c ∈ text.takeWhile p) : p c := by
  have all := List.all_takeWhile (p := p) (l := text)
  exact List.all_eq_true.mp all c member

theorem takeWhile_of_next {p : Char → Bool} {run rest : List Char} (inside : ∀ c ∈ run, p c)
    (outside : Next (fun c => p c = false) rest) : (run ++ rest).takeWhile p = run := by
  rw [List.takeWhile_append_of_pos inside]
  cases rest with
  | nil => simp
  | cons c rest => simp [next_cons.mp outside]

theorem dropWhile_of_next {p : Char → Bool} {run rest : List Char} (inside : ∀ c ∈ run, p c)
    (outside : Next (fun c => p c = false) rest) : (run ++ rest).dropWhile p = rest := by
  rw [List.dropWhile_append_of_pos inside]
  cases rest with
  | nil => simp
  | cons c rest => simp [next_cons.mp outside]

theorem of_separates {p : Char → Bool} (all : separators.all p) {c : Char}
    (separated : separates c) : p c := by
  have member : c ∈ separators := by simpa [separates] using separated
  exact List.all_eq_true.mp all c member

theorem isLetterOrDigit_of_separates {c : Char} (separated : separates c) :
    isLetterOrDigit c = false := by
  have all : separators.all fun c => !isLetterOrDigit c := by decide
  simpa using of_separates all separated

theorem word?_eq_some {text rest : List Char} {lexeme : Lexeme} :
    word? text = some (lexeme, rest) ↔ ∃ c run, lexeme = ⟨.identifier, c :: run⟩ ∧
      text = c :: (run ++ rest) ∧ isLetter c ∧ (∀ d ∈ run, isLetterOrDigit d) ∧
        Next (fun d => isLetterOrDigit d = false) rest := by
  constructor
  · intro first
    unfold word? at first
    split at first
    · simp at first
    · next c text =>
      split at first
      · next letter =>
        cases first
        refine ⟨c, _, rfl, ?_, letter, fun d => of_mem_takeWhile, next_dropWhile _ _⟩
        rw [List.takeWhile_append_dropWhile]
      · simp at first
  · rintro ⟨c, run, rfl, rfl, letter, inside, outside⟩
    rw [word?, if_pos letter, takeWhile_of_next inside outside, dropWhile_of_next inside outside]

theorem word?_keeps {lexeme : Lexeme} {rest other : List Char}
    (first : word? (lexeme.text ++ rest) = some (lexeme, rest))
    (keeps : Keeps lexeme.tag rest other) :
    word? (lexeme.text ++ other) = some (lexeme, other) := by
  obtain ⟨c, run, rfl, -, letter, inside, outside⟩ := word?_eq_some.mp first
  refine word?_eq_some.mpr ⟨c, run, rfl, rfl, letter, inside, ?_⟩
  rcases keeps with ⟨same, -⟩ | ended
  · exact outside.congr same
  · exact ended.imp fun d => isLetterOrDigit_of_separates

private theorem commentBody?_ne_nil {text body rest : List Char}
    (closed : commentBody? text = some (body, rest)) : body ≠ [] := by
  rintro rfl
  unfold commentBody? at closed
  split at closed
  · simp at closed
  · simp at closed
  · obtain ⟨_, _, same⟩ := Option.map_eq_some_iff.mp closed
    simp at same

theorem commentBody?_follow {text body rest : List Char} (other : List Char)
    (closed : commentBody? text = some (body, rest)) :
    commentBody? (body ++ other) = some (body, other) := by
  fun_induction commentBody? text generalizing body with
  | case1 => simp at closed
  | case2 =>
    cases closed
    rfl
  | case3 c text open_ ih =>
    obtain ⟨⟨inner, after⟩, found, same⟩ := Option.map_eq_some_iff.mp closed
    cases same
    have whole := commentBody?_append found
    rw [List.cons_append, commentBody?, ih found]
    · rfl
    · intro following first second
      cases inner with
      | nil => exact commentBody?_ne_nil found rfl
      | cons d inner =>
        cases second
        exact open_ (inner ++ rest) first whole.symm

/-- The forms of trivia, each with what may follow it. -/
inductive TriviaForm : Lexeme → List Char → Prop
  | lineFeed (rest) : TriviaForm ⟨.trivia .newline, ['\n']⟩ rest
  | returnFeed (rest) : TriviaForm ⟨.trivia .newline, ['\r', '\n']⟩ rest
  | loneReturn {rest} (alone : Next (· ≠ '\n') rest) : TriviaForm ⟨.trivia .whitespace, ['\r']⟩ rest
  | lineComment {run rest} (inside : ∀ c ∈ run, c ≠ '\n') (ended : Next (· = '\n') rest) :
      TriviaForm ⟨.trivia .lineComment, '/' :: '/' :: run⟩ rest
  | blockComment {body rest} (closed : commentBody? (body ++ rest) = some (body, rest)) :
      TriviaForm ⟨.trivia .blockComment, '/' :: '*' :: body⟩ rest
  | openComment {text} (unclosed : commentBody? text = none) :
      TriviaForm ⟨.malformed .unterminatedComment, '/' :: '*' :: text⟩ []
  | blanks {c run rest} (first : isBlank c) (inside : ∀ d ∈ run, isBlank d)
      (ended : Next (fun d => isBlank d = false) rest) :
      TriviaForm ⟨.trivia .whitespace, c :: run⟩ rest

theorem isBlank_iff {c : Char} : isBlank c ↔ c = ' ' ∨ c = '\t' := by simp [isBlank]

theorem TriviaForm.read {lexeme : Lexeme} {rest : List Char} (form : TriviaForm lexeme rest) :
    trivia? (lexeme.text ++ rest) = some (lexeme, rest) := by
  cases form with
  | lineFeed | returnFeed => rfl
  | loneReturn alone =>
    cases rest with
    | nil => rfl
    | cons c rest =>
      have other := next_cons.mp alone
      simp [trivia?, other]
  | lineComment inside ended =>
    have outside := ended.imp fun c same => show (c != '\n') = false by simp [same]
    have inside : ∀ c ∈ _, (c != '\n') = true := fun c member => by simpa using inside c member
    simp [trivia?, takeWhile_of_next inside outside, dropWhile_of_next inside outside]
  | blockComment closed => simp [trivia?, Lexeme.blockComment, closed]
  | openComment unclosed => simp [trivia?, Lexeme.blockComment, unclosed]
  | blanks first inside ended =>
    have run := takeWhile_of_next inside ended
    have after := dropWhile_of_next inside ended
    rcases isBlank_iff.mp first with rfl | rfl <;> simp [trivia?, first, run, after]

theorem triviaForm_of_read {text rest : List Char} {lexeme : Lexeme}
    (first : trivia? text = some (lexeme, rest)) : TriviaForm lexeme rest := by
  unfold trivia? at first
  split at first
  · simp at first
  · cases first
    exact .lineFeed _
  · cases first
    exact .returnFeed _
  · next text alone =>
    cases first
    refine .loneReturn ?_
    cases rest with
    | nil => simp
    | cons c rest => simpa using fun same => alone rest (by rw [same])
  · cases first
    refine .lineComment (fun c member => ?_) ?_
    · simpa using of_mem_takeWhile member
    · exact (next_dropWhile _ _).imp fun c stopped => by simpa using stopped
  · next text =>
    unfold blockComment at first
    split at first
    · next body after closed =>
      cases first
      rw [← commentBody?_append closed] at closed
      exact .blockComment closed
    · next unclosed =>
      cases first
      exact .openComment unclosed
  · split at first
    · next blank =>
      cases first
      exact .blanks blank (fun d => of_mem_takeWhile) (next_dropWhile _ _)
    · simp at first

theorem trivia?_keeps {lexeme : Lexeme} {rest other : List Char}
    (first : trivia? (lexeme.text ++ rest) = some (lexeme, rest))
    (keeps : Keeps lexeme.tag rest other) :
    trivia? (lexeme.text ++ other) = some (lexeme, other) := by
  apply TriviaForm.read
  cases triviaForm_of_read first with
  | lineFeed => exact .lineFeed _
  | returnFeed => exact .returnFeed _
  | loneReturn alone =>
    refine .loneReturn ?_
    rcases keeps with ⟨same, -⟩ | ended
    · exact alone.congr same
    · exact ended.imp fun c ends => by simp_all [endsBefore]
  | lineComment inside ended =>
    refine .lineComment inside ?_
    rcases keeps with ⟨same, -⟩ | ended
    · exact ended.congr same
    · exact ended.imp fun c ends => by simpa [endsBefore] using ends
  | blockComment closed => exact .blockComment (commentBody?_follow other closed)
  | openComment unclosed =>
    have nothing : other = [] := by
      rcases keeps with ⟨same, -⟩ | ended
      · simpa using same
      · cases other with
        | nil => rfl
        | cons c other => simp [endsBefore] at ended
    subst nothing
    exact .openComment unclosed
  | blanks blank inside ended =>
    refine .blanks blank inside ?_
    rcases keeps with ⟨same, -⟩ | ended
    · exact ended.congr same
    · exact ended.imp fun c ends => by simp_all [endsBefore]

end FragmentBounds.Lexeme
