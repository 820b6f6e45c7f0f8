import FragmentBounds.Proofs.Lexeme.Splitting
import FragmentBounds.Span

/-! Texts that start and end with a significant lexeme. Put between blank text
and a separator, such a text keeps its lexemes. -/
namespace FragmentBounds

open Lexeme

/-- Lexemes of which the first and the last are significant. -/
structure Trimmed (lexemes : List Lexeme) : Prop where
  nonempty : lexemes ≠ []
  first : ∀ lexeme ∈ lexemes.head?, lexeme.tag.isTrivia = false
  last : ∀ lexeme ∈ lexemes.getLast?, lexeme.tag.isTrivia = false

theorem Trimmed.exists_cons {lexemes : List Lexeme} (trimmed : Trimmed lexemes) :
    ∃ first more, lexemes = first :: more ∧ first.tag.isTrivia = false := by
  obtain ⟨first, more, rfl⟩ := List.exists_cons_of_ne_nil trimmed.nonempty
  exact ⟨first, more, rfl, trimmed.first first rfl⟩

theorem Trimmed.exists_concat {lexemes : List Lexeme} (trimmed : Trimmed lexemes) :
    ∃ body final, lexemes = body ++ [final] ∧ final.tag.isTrivia = false := by
  rcases List.eq_nil_or_concat lexemes with none | ⟨body, final, same⟩
  · exact absurd none trimmed.nonempty
  · rw [List.concat_eq_append] at same
    exact ⟨body, final, same, trimmed.last final (by simp [same])⟩

theorem Trimmed.append_significant {lexemes : List Lexeme} (trimmed : Trimmed lexemes)
    (between : List Lexeme) (final : Lexeme) (significant : final.tag.isTrivia = false) :
    Trimmed (lexemes ++ between ++ [final]) := by
  obtain ⟨lexeme, more, rfl, -⟩ := trimmed.exists_cons
  refine ⟨by simp, ?_, ?_⟩
  · simpa using trimmed.first
  · rw [List.getLast?_concat]
    simpa using significant

theorem trivia_or_trimmed (lexemes : List Lexeme) :
    (∀ lexeme ∈ lexemes, lexeme.tag.isTrivia) ∨ ∃ before inside after,
      lexemes = before ++ inside ++ after ∧ (∀ lexeme ∈ before, lexeme.tag.isTrivia) ∧
        Trimmed inside ∧ ∀ lexeme ∈ after, lexeme.tag.isTrivia := by
  induction lexemes with
  | nil => exact .inl (by simp)
  | cons lexeme lexemes ih =>
    cases trivia : lexeme.tag.isTrivia with
    | true =>
      rcases ih with all | ⟨before, inside, after, rfl, left, trimmed, right⟩
      · exact .inl (by simpa [trivia] using all)
      · exact .inr ⟨lexeme :: before, inside, after, rfl, by simpa [trivia] using left, trimmed, right⟩
    | false =>
      rcases ih with all | ⟨before, inside, after, rfl, left, trimmed, right⟩
      · refine .inr ⟨[], [lexeme], lexemes, rfl, by simp, ⟨by simp, ?_, ?_⟩, all⟩ <;> simpa using trivia
      · refine .inr ⟨[], lexeme :: (before ++ inside), after, by simp, by simp, ⟨by simp, ?_, ?_⟩, right⟩
        · simpa using trivia
        · obtain ⟨body, final, rfl, significant⟩ := trimmed.exists_concat
          rw [← List.append_assoc, ← List.cons_append, List.getLast?_concat]
          simpa using significant

theorem get?_of_parts {source : String} {before inside after : List Lexeme}
    (cut : lexemes source.toList = before ++ inside ++ after) :
    ∃ text, Span.get? ⟨Text.byteSize (before.flatMap Lexeme.text),
        Text.byteSize (before.flatMap Lexeme.text) + Text.byteSize (inside.flatMap Lexeme.text)⟩
          source = some text ∧
      lexemes text.toList = inside ∧
      text.utf8ByteSize = Text.byteSize (inside.flatMap Lexeme.text) := by
  refine ⟨String.ofList (inside.flatMap Lexeme.text), ?_, ?_, ?_⟩
  · rw [Span.get?, ← flatMap_text_lexemes source.toList, cut, List.flatMap_append,
      List.flatMap_append, Text.sliceBytes?_append]
    rfl
  · have front := (lexemes_split cut).1
    have alone := lexemes_split front
    rw [String.toList_ofList]
    exact alone.2
  · rw [← Text.byteSize_toList, String.toList_ofList]

theorem separated_blank_append {blank rest : List Char} (spaces : Blank blank)
    (separated : Next (fun c => separates c) rest) :
    Next (fun c => separates c) (blank ++ rest) := by
  cases blank with
  | nil => exact separated
  | cons c blank =>
    rw [List.cons_append, next_cons]
    rcases spaces c (by simp) with rfl | rfl | rfl <;> rfl

theorem lexemes_embedded {before inside after rest : List Char} (blank : Blank before)
    (trimmed : Trimmed (lexemes inside))
    (sound : ∀ lexeme ∈ lexemes inside, lexeme.tag.isMalformed = false) (spaces : Blank after)
    (separated : Next (fun c => separates c) rest)
    (significant : ∀ lexeme ∈ (lexemes rest).head?, lexeme.tag.isTrivia = false) :
    lexemes (before ++ inside ++ after ++ rest) =
      lexemes before ++ (lexemes inside ++ (lexemes after ++ lexemes rest)) := by
  have split : lexemes (inside ++ (after ++ rest)) =
      lexemes inside ++ (lexemes after ++ lexemes rest) := by
    rw [lexemes_append_separated _ (separated_blank_append spaces separated),
      lexemes_blank_append spaces significant]
    intro last member
    exact ⟨trimmed.last last member, sound last (List.mem_of_getLast? member)⟩
  rw [List.append_assoc, List.append_assoc, lexemes_blank_append blank, split]
  rw [split]
  obtain ⟨first, more, same, visible⟩ := trimmed.exists_cons
  simpa [same] using visible

theorem lexemes_line_break {front : List Char} (complete : ∀ last ∈ (lexemes front).getLast?,
      last.tag.isTrivia = false ∧ last.tag.isMalformed = false) (rest : List Char) :
    lexemes (front ++ '\n' :: rest) =
      lexemes front ++ ⟨.trivia .newline, ['\n']⟩ :: lexemes rest := by
  have separated : Next (fun c => separates c) ('\n' :: rest) := by
    rw [next_cons]
    rfl
  rw [lexemes_append_separated complete separated, lexemes_lineFeed]

/-- Nothing in the text is malformed, and it does not end in a line comment. -/
structure Sealed (text : List Char) : Prop where
  sound : ∀ lexeme ∈ lexemes text, lexeme.tag.isMalformed = false
  ended : ∀ lexeme ∈ (lexemes text).getLast?, lexeme.tag ≠ .trivia .lineComment

instance (text : List Char) : Decidable (Sealed text) :=
  decidable_of_iff
    ((∀ lexeme ∈ lexemes text, lexeme.tag.isMalformed = false) ∧
      (lexemes text).getLast?.map Lexeme.tag ≠ some (.trivia .lineComment))
    ⟨fun ⟨sound, ended⟩ => ⟨sound, fun _ member tag => ended (by simp [Option.mem_def.mp member, tag])⟩,
      fun ⟨sound, ended⟩ => ⟨sound, fun last =>
        let ⟨lexeme, member, tag⟩ := Option.map_eq_some_iff.mp last
        ended lexeme member tag⟩⟩

def brackets : List Char := ['(', ')', '[', ']', '\x7b', '\x7d']

theorem lexemes_before_bracket {front : List Char} (closed : Sealed front) {c : Char}
    (bracket : c ∈ brackets) (rest : List Char) :
    lexemes (front ++ c :: rest) = lexemes front ++ lexemes (c :: rest) := by
  apply lexemes_append
  intro last member
  have sound := closed.sound last (List.mem_of_getLast? member)
  have ended := closed.ended last member
  have all : brackets.all fun c => separates c ∧ c != '=' ∧ (!isBlank c && c != '\n') := by decide
  obtain ⟨separated, assign, visible⟩ := of_decide_eq_true (List.all_eq_true.mp all c bracket)
  rw [next_cons]
  cases tag : last.tag with
  | identifier | operator kind | dot => exact separated
  | literal kind => cases kind <;> first | exact separated | rfl
  | colon => exact assign
  | malformed kind => simp [tag, Tag.isMalformed] at sound
  | trivia kind =>
    cases kind with
    | whitespace => exact visible
    | lineComment => exact absurd tag ended
    | newline | blockComment => rfl
  | _ => rfl

theorem lexemes_group (bracket : Bracket) {front inner : List Char} (before : Sealed front)
    (content : Sealed inner) (rest : List Char) :
    lexemes (front ++ (bracket.opener.toList ++ (inner ++ (bracket.closer.toList ++ rest)))) =
      lexemes front ++ (⟨.opening bracket, bracket.opener.toList⟩ ::
        (lexemes inner ++ ⟨.closing bracket, bracket.closer.toList⟩ :: lexemes rest)) := by
  have opens : ∃ c ∈ brackets, bracket.opener.toList = [c] := by
    cases bracket <;> exact ⟨_, by decide, rfl⟩
  have closes : ∃ c ∈ brackets, bracket.closer.toList = [c] := by
    cases bracket <;> exact ⟨_, by decide, rfl⟩
  obtain ⟨opener, left, opens⟩ := opens
  obtain ⟨closer, right, closes⟩ := closes
  have entered := lexemes_opener bracket (inner ++ closer :: rest)
  have leaving := lexemes_closer bracket rest
  rw [opens, List.singleton_append] at entered
  rw [closes, List.singleton_append] at leaving
  rw [opens, closes, List.singleton_append, List.singleton_append,
    lexemes_before_bracket before left, entered, lexemes_before_bracket content right, leaving]

end FragmentBounds
