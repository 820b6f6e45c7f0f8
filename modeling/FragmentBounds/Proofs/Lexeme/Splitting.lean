import FragmentBounds.Proofs.Lexeme.Boundary

/-! Sequences of lexemes put together and taken apart. Text may be put behind a
text whose last lexeme it does not go on with, and a text may be cut between
any two of its lexemes. -/
namespace FragmentBounds

open Lexeme

theorem lexemes_eq_cons {text : List Char} {lexeme : Lexeme} {more : List Lexeme}
    (cut : lexemes text = lexeme :: more) :
    ∃ rest, first? text = some (lexeme, rest) ∧ text = lexeme.text ++ rest ∧
      lexemes rest = more := by
  rw [lexemes] at cut
  split at cut
  · simp at cut
  · next found rest first =>
    obtain ⟨rfl, same⟩ := List.cons.inj cut
    exact ⟨rest, first, (first?_cuts first).2.symm, same⟩

theorem lexemes_eq_nil {text : List Char} : lexemes text = [] ↔ text = [] := by
  constructor
  · intro none
    rw [← flatMap_text_lexemes text, none, List.flatMap_nil]
  · rintro rfl
    exact lexemes_nil

namespace Lexeme

theorem not_points_of_dot {lexeme : Lexeme} {rest : List Char}
    (first : first? (lexeme.text ++ rest) = some (lexeme, rest)) (dot : lexeme.tag = .dot) :
    ¬ ['.', '.'] <+: rest := by
  rintro ⟨more, rfl⟩
  have spells : Spells ".".toList lexeme.tag := dot ▸ .fixed rfl
  obtain ⟨-, spelled, longest⟩ := symbol?_eq_some.mp (symbol?_of_first? first spells)
  have text : lexeme.text = ['.'] := spelling_dot _ (mem_spellings_of_ofSpelling? spelled) dot
  have spread : ofSpelling? ['.', '.', '.'] = some .ellipsis := by decide
  have bound := longest _ _ spread ⟨more, by simp [text]⟩
  simp [text] at bound

theorem keeps_of_two {lexeme : Lexeme} {c d : Char} {after : List Char}
    (first : first? (lexeme.text ++ c :: d :: after) = some (lexeme, c :: d :: after))
    (rest : List Char) : Keeps lexeme.tag (c :: d :: after) (c :: d :: after ++ rest) := by
  refine .inl ⟨rfl, fun dot points => ?_⟩
  obtain ⟨behind, same⟩ := points
  simp only [List.cons_append, List.nil_append, List.cons.injEq] at same
  exact not_points_of_dot first dot ⟨after, by rw [← same.1, ← same.2.1]; rfl⟩

end Lexeme

/-- Text put behind another is read on its own, if it does not go on with the
last lexeme before it. -/
theorem lexemes_append {front rest : List Char}
    (ends : ∀ last ∈ (lexemes front).getLast?, Next (fun c => endsBefore last.tag c) rest) :
    lexemes (front ++ rest) = lexemes front ++ lexemes rest := by
  fun_induction lexemes front with
  | case1 front none =>
    rw [first?_eq_none.mp none]
    rfl
  | case2 front lexeme after first ih =>
    have whole := (first?_cuts first).2
    subst whole
    -- Only the last lexeme gets to see the new text.
    have keeps : Keeps lexeme.tag after (after ++ rest) := by
      cases after with
      | nil => exact .inr (ends lexeme (by simp [lexemes_nil]))
      | cons c after =>
        cases after with
        | cons d after => exact keeps_of_two first rest
        | nil =>
          -- The two points are one of the text in front and one of the rest.
          refine .inl ⟨rfl, fun dot points => ?_⟩
          obtain ⟨behind, same⟩ := points
          simp only [List.cons_append, List.nil_append, List.cons.injEq] at same
          obtain ⟨rfl, rfl⟩ := same
          have point : first? ['.'] = some (⟨.dot, ['.']⟩, []) := by decide
          have alone : lexemes ['.'] = [⟨.dot, ['.']⟩] := by
            rw [lexemes_of_first? point, lexemes_nil]
          have ended := ends ⟨.dot, ['.']⟩ (by simp [alone])
          simp [endsBefore, separates, separators] at ended
    have first := first?_keeps first keeps
    rw [List.append_assoc, lexemes_of_first? first, ih, List.cons_append]
    intro last member
    apply ends last
    cases tail : lexemes after with
    | nil => simp [tail] at member
    | cons second more => simpa [tail] using member

/-- A text may be cut between any two of its lexemes. -/
theorem lexemes_split {text : List Char} {front back : List Lexeme}
    (cut : lexemes text = front ++ back) :
    lexemes (front.flatMap Lexeme.text) = front ∧ lexemes (back.flatMap Lexeme.text) = back := by
  induction front generalizing text with
  | nil =>
    have whole := flatMap_text_lexemes text
    rw [cut, List.nil_append] at whole
    rw [whole]
    exact ⟨lexemes_nil, cut⟩
  | cons lexeme front ih =>
    obtain ⟨rest, first, rfl, more⟩ := lexemes_eq_cons cut
    have more : lexemes rest = front ++ back := more
    obtain ⟨left, right⟩ := ih more
    refine ⟨?_, right⟩
    have whole := flatMap_text_lexemes rest
    rw [more, List.flatMap_append] at whole
    have keeps : Keeps lexeme.tag rest (front.flatMap Lexeme.text) := by
      cases front with
      | nil => exact .inr (by simp)
      | cons second front =>
        have nonempty : second.text ≠ [] := @text_ne_nil_of_mem_lexemes rest _ (by simp [more])
        refine .inl ⟨?_, fun dot points => not_points_of_dot first dot ?_⟩
        · rw [← whole]
          obtain ⟨c, body, same⟩ := List.exists_cons_of_ne_nil nonempty
          simp [same]
        · exact points.trans ⟨_, whole⟩
    rw [List.flatMap_cons, lexemes_of_first? (first?_keeps first keeps), left]

/-- Spaces, tabs and line feeds. -/
def Blank (text : List Char) : Prop := ∀ c ∈ text, c = ' ' ∨ c = '\t' ∨ c = '\n'

instance (text : List Char) : Decidable (Blank text) :=
  decidable_of_iff (text.all fun c => c = ' ' ∨ c = '\t' ∨ c = '\n') (by simp [Blank])

theorem Blank.append {text more : List Char} (blank : Blank text) (spaces : Blank more) :
    Blank (text ++ more) := by
  intro c member
  rcases List.mem_append.mp member with member | member
  · exact blank c member
  · exact spaces c member

theorem tag_of_first?_blank {c : Char} {text rest : List Char} {lexeme : Lexeme}
    (start : c = ' ' ∨ c = '\t' ∨ c = '\n') (first : first? (c :: text) = some (lexeme, rest)) :
    lexeme.tag = .trivia .whitespace ∨ lexeme.tag = .trivia .newline := by
  have some_ : trivia? (c :: text) ≠ none := by
    rw [ne_eq, trivia?_eq_none]
    rcases start with rfl | rfl | rfl <;> simp [isBlank]
  have whole := (first?_cuts first).2
  have first := (first?_eq_some.mp first).trivia_of_ne_none some_
  cases triviaForm_of_read first with
  | lineFeed | returnFeed => exact .inr rfl
  | loneReturn | blanks => exact .inl rfl
  | lineComment | blockComment | openComment =>
    obtain ⟨rfl, -⟩ := List.cons.inj whole
    simp at start

theorem tag_of_mem_lexemes_blank {text : List Char} (blank : Blank text) :
    ∀ lexeme ∈ lexemes text, lexeme.tag = .trivia .whitespace ∨ lexeme.tag = .trivia .newline := by
  fun_induction lexemes text with
  | case1 => simp
  | case2 text lexeme rest first ih =>
    have whole := (first?_cuts first).2
    subst whole
    intro member present
    rcases List.mem_cons.mp present with rfl | present
    · obtain ⟨c, body, text⟩ := List.exists_cons_of_ne_nil (first?_cuts first).1
      rw [text, List.cons_append] at first
      exact tag_of_first?_blank (blank c (by simp [text])) first
    · exact ih (fun c inside => blank c (by simp [inside])) member present

theorem isTrivia_of_mem_lexemes_blank {text : List Char} (blank : Blank text) :
    ∀ lexeme ∈ lexemes text, lexeme.tag.isTrivia := by
  intro lexeme member
  rcases tag_of_mem_lexemes_blank blank lexeme member with tag | tag <;> rw [tag] <;> rfl

theorem lexemes_blank_append {blank text : List Char} (spaces : Blank blank)
    (first : ∀ lexeme ∈ (lexemes text).head?, lexeme.tag.isTrivia = false) :
    lexemes (blank ++ text) = lexemes blank ++ lexemes text := by
  apply lexemes_append
  intro last member
  cases text with
  | nil => simp
  | cons c text =>
    have visible : ¬ (c = ' ' ∨ c = '\t' ∨ c = '\n') := by
      intro start
      cases cut : first? (c :: text) with
      | none => simp [first?_eq_none] at cut
      | some found =>
        obtain ⟨lexeme, rest⟩ := found
        have significant := first lexeme (by simp [lexemes_of_first? cut])
        rcases tag_of_first?_blank start cut with tag | tag <;> simp [tag, Tag.isTrivia] at significant
    have place := List.mem_of_getLast? member
    rw [next_cons]
    rcases tag_of_mem_lexemes_blank spaces last place with tag | tag
    · simp only [tag, endsBefore, isBlank]
      simp only [not_or] at visible
      simp [visible]
    · rw [tag]
      rfl

theorem lexemes_append_separated {front rest : List Char}
    (complete : ∀ last ∈ (lexemes front).getLast?,
      last.tag.isTrivia = false ∧ last.tag.isMalformed = false)
    (separated : Next (fun c => separates c) rest) :
    lexemes (front ++ rest) = lexemes front ++ lexemes rest := by
  apply lexemes_append
  intro last member
  obtain ⟨significant, sound⟩ := complete last member
  refine separated.imp fun c separator => ?_
  cases tag : last.tag with
  | colon =>
    have other : separators.all (· != '=') := by decide
    exact of_separates other separator
  | literal kind => cases kind <;> first | exact separator | rfl
  | identifier | operator kind | dot => exact separator
  | trivia kind => simp [tag, Tag.isTrivia] at significant
  | malformed kind => simp [tag, Tag.isMalformed] at sound
  | _ => rfl

theorem lexemes_closed (lexeme : Lexeme) (rest : List Char)
    (alone : first? (lexeme.text ++ []) = some (lexeme, []))
    (closed : ∀ c, endsBefore lexeme.tag c) :
    lexemes (lexeme.text ++ rest) = lexeme :: lexemes rest :=
  lexemes_of_first? (first?_keeps alone (.inr fun c _ => closed c))

theorem lexemes_opener (bracket : Bracket) (rest : List Char) :
    lexemes (bracket.opener.toList ++ rest) =
      ⟨.opening bracket, bracket.opener.toList⟩ :: lexemes rest :=
  lexemes_closed ⟨.opening bracket, bracket.opener.toList⟩ rest (by cases bracket <;> decide)
    fun _ => rfl

theorem lexemes_closer (bracket : Bracket) (rest : List Char) :
    lexemes (bracket.closer.toList ++ rest) =
      ⟨.closing bracket, bracket.closer.toList⟩ :: lexemes rest :=
  lexemes_closed ⟨.closing bracket, bracket.closer.toList⟩ rest (by cases bracket <;> decide)
    fun _ => rfl

theorem lexemes_lineFeed (rest : List Char) :
    lexemes ('\n' :: rest) = ⟨.trivia .newline, ['\n']⟩ :: lexemes rest :=
  lexemes_closed ⟨.trivia .newline, ['\n']⟩ rest (by decide) fun _ => rfl

theorem lexemes_blanks {c : Char} {run rest : List Char} (first : isBlank c)
    (inside : ∀ d ∈ run, isBlank d) (ended : Next (fun d => isBlank d = false) rest) :
    lexemes (c :: run ++ rest) = ⟨.trivia .whitespace, c :: run⟩ :: lexemes rest := by
  have form := TriviaForm.blanks first inside ended
  exact lexemes_of_first? (first?_eq_some.mpr (.trivia form.read))

theorem lexemes_space {text : List Char} {before back : List Lexeme}
    (cut : lexemes text = before ++ back) (trivia : ∀ lexeme ∈ before, lexeme.tag.isTrivia)
    (first : ∀ lexeme ∈ back.head?, lexeme.tag.isTrivia = false) :
    ∃ leading, lexemes (' ' :: text) = leading ++ back ∧
      (∀ lexeme ∈ leading, lexeme.tag.isTrivia) ∧
      Text.byteSize (leading.flatMap Lexeme.text) = Text.byteSize (before.flatMap Lexeme.text) + 1 := by
  have parts := List.takeWhile_append_dropWhile (p := isBlank) (l := text)
  have inside : ∀ d ∈ text.takeWhile isBlank, isBlank d := fun d => of_mem_takeWhile
  have ended := next_dropWhile isBlank text
  generalize text.takeWhile isBlank = run at parts inside
  generalize text.dropWhile isBlank = rest at parts ended
  subst parts
  have split := lexemes_blanks (c := ' ') rfl inside ended
  have space : Text.byteSize [' '] = 1 := rfl
  cases run with
  | nil =>
    refine ⟨⟨.trivia .whitespace, [' ']⟩ :: before, ?_, ?_, ?_⟩
    · exact split.trans (congrArg _ cut)
    · simpa [Tag.isTrivia] using trivia
    · rw [List.flatMap_cons, Text.byteSize_append, space, Nat.add_comm]
  | cons c run =>
    rw [lexemes_blanks (inside c (by simp)) (fun d member => inside d (by simp [member])) ended] at cut
    cases before with
    | nil =>
      rw [List.nil_append] at cut
      rw [← cut] at first
      cases first ⟨.trivia .whitespace, c :: run⟩ rfl
    | cons blank before =>
      obtain ⟨rfl, more⟩ := List.cons.inj cut
      refine ⟨⟨.trivia .whitespace, ' ' :: c :: run⟩ :: before, ?_, ?_, ?_⟩
      · exact split.trans (congrArg _ more)
      · simpa [Tag.isTrivia] using trivia
      · rw [List.flatMap_cons, List.flatMap_cons, Text.byteSize_append, Text.byteSize_append]
        have wider : Text.byteSize (' ' :: c :: run) = Text.byteSize (c :: run) + 1 := by
          rw [Text.byteSize_cons, Nat.add_comm]
          rfl
        simp only [wider]
        omega

theorem lexemes_keyword (keyword : Keyword) {rest : List Char}
    (separated : Next (fun c => separates c) rest) :
    lexemes (keyword.spelling.toList ++ rest) =
      ⟨.identifier, keyword.spelling.toList⟩ :: lexemes rest := by
  let lexeme : Lexeme := ⟨.identifier, keyword.spelling.toList⟩
  have alone : first? (lexeme.text ++ []) = some (lexeme, []) := by
    cases keyword <;> decide +kernel
  have keeps : Keeps lexeme.tag [] rest := .inr separated
  exact lexemes_of_first? (first?_keeps alone keeps)

theorem lexemes_keyword_space (keyword : Keyword) {text : List Char} {before back : List Lexeme}
    (cut : lexemes text = before ++ back) (trivia : ∀ lexeme ∈ before, lexeme.tag.isTrivia)
    (first : ∀ lexeme ∈ back.head?, lexeme.tag.isTrivia = false) :
    ∃ leading, lexemes (keyword.spelling.toList ++ ' ' :: text) =
        ⟨.identifier, keyword.spelling.toList⟩ :: (leading ++ back) ∧
      (∀ lexeme ∈ leading, lexeme.tag.isTrivia) ∧
      Text.byteSize (leading.flatMap Lexeme.text) = Text.byteSize (before.flatMap Lexeme.text) + 1 := by
  obtain ⟨leading, spaced, blank, wider⟩ := lexemes_space cut trivia first
  have separated : Next (fun c => separates c) (' ' :: text) := by
    rw [next_cons]
    rfl
  exact ⟨leading, by rw [lexemes_keyword keyword separated, spaced], blank, wider⟩

end FragmentBounds
