import FragmentBounds.Proofs.Lexeme.Content
import FragmentBounds.Proofs.Token.ReadAt

/-! Literals and comments that a delimiter ends. Each is told from the text
alone, one character after another: what the text opens with says which
delimiter to look for, and where the first one is says how it ends. -/
namespace FragmentBounds

open Lexeme

/-- The tag of a literal that its quote closes, by its content. -/
inductive ClosedAs (content : List Char) : Char → Tag → Prop
  | string : ClosedAs content '"' (.literal .string)
  | rune (single : RuneUnit content) : ClosedAs content '\'' (.literal .rune)
  | invalidRune (other : ¬ RuneUnit content) : ClosedAs content '\'' (.malformed .invalidRune)

/-- What is wrong with a literal that its quote never closes. -/
inductive OpenAs : Char → Malformation → Prop
  | string : OpenAs '"' .unterminatedString
  | rune : OpenAs '\'' .unterminatedRune

/-- Texts that open with a delimiter, each with the lexeme that goes up to the
next one. -/
inductive Delimited : List Char → Lexeme → Prop
  | closed {quote : Char} {tag : Tag} {content rest : List Char} (named : ClosedAs content quote tag)
      (units : Content quote content) :
      Delimited (quote :: content ++ quote :: rest) ⟨tag, quote :: content ++ [quote]⟩
  | unclosed {quote : Char} {kind : Malformation} {content hanging rest : List Char}
      (named : OpenAs quote kind) (units : Content quote content)
      (cut : hanging = [] ∨ hanging = ['\\']) (ended : Next (· = '\n') rest) :
      Delimited (quote :: (content ++ hanging) ++ rest)
        ⟨.malformed kind, quote :: (content ++ hanging)⟩
  | rawString {content rest : List Char} (inside : '\x60' ∉ content) :
      Delimited ('\x60' :: content ++ '\x60' :: rest)
        ⟨.literal .rawString, '\x60' :: content ++ ['\x60']⟩
  | openRawString {content : List Char} (inside : '\x60' ∉ content) :
      Delimited ('\x60' :: content) ⟨.malformed .unterminatedRawString, '\x60' :: content⟩
  | lineComment {content rest : List Char} (inside : '\n' ∉ content) (ended : Next (· = '\n') rest) :
      Delimited ('/' :: '/' :: content ++ rest) ⟨.trivia .lineComment, '/' :: '/' :: content⟩
  /-- No closing mark starts before the one that ends the comment. -/
  | blockComment {content rest : List Char} (first : ¬ ['*', '/'] <:+: content ++ ['*']) :
      Delimited ('/' :: '*' :: content ++ '*' :: '/' :: rest)
        ⟨.trivia .blockComment, '/' :: '*' :: content ++ ['*', '/']⟩
  | openComment {content : List Char} (never : ¬ ['*', '/'] <:+: content) :
      Delimited ('/' :: '*' :: content)
        ⟨.malformed .unterminatedComment, '/' :: '*' :: content⟩

def openingMarks : List (List Char) := [['"'], ['\''], ['\x60'], ['/', '/'], ['/', '*']]

section Comments

variable {text body rest : List Char}

theorem commentBody?_eq_none : commentBody? text = none ↔ ¬ ['*', '/'] <:+: text := by
  fun_induction commentBody? text with
  | case1 => simp
  | case2 rest => simp [List.infix_cons_iff]
  | case3 c text other ih =>
    rw [Option.map_eq_none_iff, ih, List.infix_cons_iff, not_or]
    refine ⟨fun none => ⟨?_, none⟩, And.right⟩
    rintro ⟨rest, same⟩
    obtain ⟨rfl, rfl⟩ := List.cons.inj same
    exact other rest rfl rfl

private theorem mark_prefix_iff (rest : List Char) {c : Char} {content : List Char} :
    ['*', '/'] <+: c :: (content ++ ['*']) ↔
      c = '*' ∧ ∃ more, content ++ '*' :: '/' :: rest = '/' :: more := by
  cases content <;> simp [List.cons_prefix_cons, eq_comm]

theorem commentBody?_eq_some : commentBody? text = some (body, rest) ↔
    ∃ content, body = content ++ ['*', '/'] ∧ text = content ++ '*' :: '/' :: rest ∧
      ¬ ['*', '/'] <:+: content ++ ['*'] := by
  constructor
  · intro closed
    fun_induction commentBody? text generalizing body with
    | case1 => cases closed
    | case2 =>
      cases closed
      exact ⟨[], rfl, rfl, by decide⟩
    | case3 c text other ih =>
      obtain ⟨⟨inner, after⟩, closed, same⟩ := Option.map_eq_some_iff.mp closed
      cases same
      obtain ⟨content, rfl, rfl, first⟩ := ih closed
      refine ⟨c :: content, rfl, rfl, ?_⟩
      rw [List.cons_append, List.infix_cons_iff, mark_prefix_iff rest]
      rintro (⟨star, more, slash⟩ | later)
      · exact other more star slash
      · exact first later
  · rintro ⟨content, rfl, rfl, first⟩
    induction content with
    | nil => rfl
    | cons c content ih =>
      rw [List.cons_append, List.infix_cons_iff, not_or, mark_prefix_iff rest] at first
      rw [List.cons_append, commentBody?, ih first.2]
      · rfl
      · exact fun more star slash => first.1 ⟨star, more, slash⟩

end Comments

section Forms

variable {text rest : List Char} {lexeme : Lexeme}

theorem ClosedAs.quote {quote : Char} {tag : Tag} {content : List Char}
    (named : ClosedAs content quote tag) : isHexDigit quote = false ∧ quote ≠ '\\' := by
  cases named <;> decide

theorem OpenAs.quote {quote : Char} {kind : Malformation} (named : OpenAs quote kind) :
    isHexDigit quote = false ∧ quote ≠ '\\' := by
  cases named <;> decide

theorem ClosedAs.form {quote : Char} {tag : Tag} {parts : List (List Char)}
    (named : ClosedAs parts.flatten quote tag)
    (closed : units quote (parts.flatten ++ quote :: rest) = (parts, quote :: rest)) :
    QuotedForm ⟨tag, quote :: parts.flatten ++ [quote]⟩ rest := by
  cases named with
  | string => exact .string closed
  | rune single =>
    have form := QuotedForm.rune closed
    rwa [if_pos ((length_units_eq_one_iff closed).mpr single)] at form
  | invalidRune other =>
    have form := QuotedForm.rune closed
    rwa [if_neg fun one => other ((length_units_eq_one_iff closed).mp one)] at form

theorem Delimited.form (delimited : Delimited text lexeme) :
    ∃ rest, text = lexeme.text ++ rest ∧ (QuotedForm lexeme rest ∨ TriviaForm lexeme rest) := by
  cases delimited with
  | @closed quote _ content rest named units =>
    obtain ⟨digitless, unslashed⟩ := named.quote
    have ended : unit? quote (quote :: rest) = none := unit?_eq_none.mpr (by simp)
    obtain ⟨parts, whole, closed⟩ := units.units_eq digitless unslashed ended (.inl rfl)
    rw [List.append_nil] at whole closed
    subst whole
    exact ⟨rest, by simp, .inl (named.form closed)⟩
  | @unclosed quote kind content hanging rest named units cut ended =>
    obtain ⟨digitless, unslashed⟩ := named.quote
    have stops : unit? quote rest = none := unit?_eq_none.mpr (ended.imp fun _ => .inr)
    obtain ⟨parts, whole, unclosed⟩ :=
      units.units_eq digitless unslashed stops (cut.imp id fun slash => ⟨slash, ended⟩)
    rw [← whole] at unclosed ⊢
    refine ⟨rest, rfl, .inl ?_⟩
    cases named with
    | string => exact .openString unclosed ended
    | rune => exact .openRune unclosed ended
  | @rawString content rest inside =>
    exact ⟨rest, by simp, .inl (.rawString fun c member same => inside (same ▸ member))⟩
  | openRawString inside =>
    exact ⟨[], by simp, .inl (.openRawString fun c member same => inside (same ▸ member))⟩
  | lineComment inside ended =>
    exact ⟨_, rfl, .inr (.lineComment (fun c member same => inside (same ▸ member)) ended)⟩
  | @blockComment content rest first =>
    have closed : commentBody? (content ++ '*' :: '/' :: rest) = some (content ++ ['*', '/'], rest) :=
      commentBody?_eq_some.mpr ⟨content, rfl, rfl, first⟩
    exact ⟨rest, by simp, .inr (.blockComment (by simpa using closed))⟩
  | openComment never => exact ⟨[], by simp, .inr (.openComment (commentBody?_eq_none.mpr never))⟩

private theorem closed_of_units {quote : Char} {tag : Tag} {parts : List (List Char)}
    (closed : units quote (parts.flatten ++ quote :: rest) = (parts, quote :: rest))
    (named : ClosedAs parts.flatten quote tag) :
    Delimited (quote :: parts.flatten ++ [quote] ++ rest) ⟨tag, quote :: parts.flatten ++ [quote]⟩ := by
  obtain ⟨digitless, unslashed⟩ := named.quote
  obtain ⟨content, hanging, whole, units, cut⟩ :=
    content_of_units digitless unslashed (parts.flatten ++ quote :: rest)
  rw [closed] at whole cut
  dsimp only at whole cut
  rcases cut with rfl | ⟨-, feed⟩
  · rw [List.append_nil] at whole
    rw [whole] at named ⊢
    have delimited : Delimited (quote :: content ++ quote :: rest) _ := .closed named units
    simpa using delimited
  · -- The quote is no line feed.
    cases named <;> simp at feed

private theorem unclosed_of_units {quote : Char} {kind : Malformation} {parts : List (List Char)}
    (unclosed : units quote (parts.flatten ++ rest) = (parts, rest)) (named : OpenAs quote kind)
    (ended : Next (· = '\n') rest) :
    Delimited (quote :: parts.flatten ++ rest) ⟨.malformed kind, quote :: parts.flatten⟩ := by
  obtain ⟨digitless, unslashed⟩ := named.quote
  obtain ⟨content, hanging, whole, units, cut⟩ :=
    content_of_units digitless unslashed (parts.flatten ++ rest)
  rw [unclosed] at whole
  dsimp only at whole
  rw [whole]
  exact .unclosed named units (cut.imp id And.left) ended

theorem Lexeme.QuotedForm.delimited (form : QuotedForm lexeme rest) :
    Delimited (lexeme.text ++ rest) lexeme := by
  cases form with
  | string closed => exact closed_of_units closed .string
  | @rune parts rest closed =>
    refine closed_of_units closed ?_
    split
    · next one => exact .rune ((length_units_eq_one_iff closed).mp one)
    · next other => exact .invalidRune fun single => other ((length_units_eq_one_iff closed).mpr single)
  | openString unclosed ended => exact unclosed_of_units unclosed .string ended
  | openRune unclosed ended => exact unclosed_of_units unclosed .rune ended
  | @rawString content rest inside =>
    have delimited : Delimited ('\x60' :: content ++ '\x60' :: rest) _ :=
      .rawString fun member => inside _ member rfl
    simpa using delimited
  | openRawString inside =>
    rw [List.append_nil]
    exact .openRawString fun member => inside _ member rfl

theorem Lexeme.TriviaForm.delimited (form : TriviaForm lexeme rest)
    (slash : lexeme.text.head? = some '/') : Delimited (lexeme.text ++ rest) lexeme := by
  cases form with
  | lineFeed | returnFeed | loneReturn => simp at slash
  | blanks blank =>
    obtain rfl := Option.some.inj slash
    cases blank
  | lineComment inside ended => exact .lineComment (fun member => inside _ member rfl) ended
  | blockComment closed =>
    obtain ⟨content, rfl, -, first⟩ := commentBody?_eq_some.mp closed
    have delimited : Delimited ('/' :: '*' :: content ++ '*' :: '/' :: rest) _ := .blockComment first
    simpa using delimited
  | openComment unclosed =>
    rw [List.append_nil]
    exact .openComment (commentBody?_eq_none.mp unclosed)

theorem Delimited.first? (delimited : Delimited text lexeme) :
    ∃ rest, Lexeme.first? text = some (lexeme, rest) := by
  obtain ⟨rest, rfl, quoted | trivia⟩ := delimited.form
  · refine ⟨rest, ?_⟩
    have read := quoted.read
    cases quoted <;> exact first?_of_quoted? (by simp) read
  · exact ⟨rest, first?_eq_some.mpr (.trivia trivia.read)⟩

theorem exists_delimited (opens : ∃ mark ∈ openingMarks, mark <+: text) :
    ∃ lexeme rest, Lexeme.first? text = some (lexeme, rest) ∧ Delimited text lexeme := by
  have quoted {c : Char} {tail : List Char} (quote : c = '"' ∨ c = '\'' ∨ c = '\x60')
      (read : quoted? (c :: tail) ≠ none) :
      ∃ lexeme rest, Lexeme.first? (c :: tail) = some (lexeme, rest) ∧ Delimited (c :: tail) lexeme := by
    obtain ⟨⟨lexeme, rest⟩, read⟩ := Option.ne_none_iff_exists'.mp read
    have delimited := (quotedForm_of_read read).delimited
    rw [(quoted?_cuts read).2] at delimited
    exact ⟨lexeme, rest, first?_of_quoted? quote read, delimited⟩
  have comment {tail : List Char} (read : trivia? ('/' :: tail) ≠ none) :
      ∃ lexeme rest, Lexeme.first? ('/' :: tail) = some (lexeme, rest) ∧
        Delimited ('/' :: tail) lexeme := by
    obtain ⟨⟨lexeme, rest⟩, read⟩ := Option.ne_none_iff_exists'.mp read
    obtain ⟨nonempty, whole⟩ := trivia?_cuts read
    have slash : lexeme.text.head? = some '/' := by
      obtain ⟨c, body, same⟩ := List.exists_cons_of_ne_nil nonempty
      rw [same, List.cons_append] at whole
      rw [same, List.head?_cons, (List.cons.inj whole).1]
    have delimited := (triviaForm_of_read read).delimited slash
    rw [whole] at delimited
    exact ⟨lexeme, rest, first?_eq_some.mpr (.trivia read), delimited⟩
  obtain ⟨mark, member, tail, rfl⟩ := opens
  simp only [openingMarks, List.mem_cons, List.not_mem_nil, or_false] at member
  rcases member with rfl | rfl | rfl | rfl | rfl
  · exact quoted (.inl rfl) nofun
  · exact quoted (.inr (.inl rfl)) nofun
  · exact quoted (.inr (.inr rfl)) nofun
  · exact comment nofun
  · exact comment nofun

end Forms

/-- Where a literal or a comment opens with a delimiter, it is read up to the
next one: by a quote that no backslash stands before, by the end of the line or
of the source, by the first closing mark. Nothing else is read there. -/
theorem readAt_delimited {source : String} {offset : Nat} {before rest : List Char}
    (here : Text.splitBytes? offset source.toList = some (before, rest))
    (opens : ∃ mark ∈ openingMarks, mark <+: rest) :
    ∃ lexeme, ReadAt source offset lexeme ∧ ∀ other, Delimited rest other ↔ other = lexeme := by
  obtain ⟨lexeme, after, first, delimited⟩ := exists_delimited opens
  refine ⟨lexeme, readAt_of_first? here first, fun other => ⟨fun also => ?_, ?_⟩⟩
  · obtain ⟨_, same⟩ := also.first?
    rw [first] at same
    cases same
    rfl
  · rintro rfl
    exact delimited

/-- The string goes past the quote that is escaped in it. -/
theorem readAt_delimited_escape :
    Text.splitBytes? 1 "x\"\\\"\"y".toList = some (['x'], "\"\\\"\"y".toList) ∧
      (∃ mark ∈ openingMarks, mark <+: "\"\\\"\"y".toList) ∧
      ReadAt "x\"\\\"\"y" 1 ⟨.literal .string, "\"\\\"\"".toList⟩ := by
  have here : Text.splitBytes? 1 "x\"\\\"\"y".toList = some (['x'], "\"\\\"\"y".toList) := by
    decide +kernel
  have opens : ∃ mark ∈ openingMarks, mark <+: "\"\\\"\"y".toList := by decide +kernel
  obtain ⟨lexeme, read, only⟩ := readAt_delimited here opens
  have content : Content '"' ['\\', '"'] := .escaped (by decide) .nil
  have delimited : Delimited ('"' :: ['\\', '"'] ++ '"' :: ['y']) _ := .closed .string content
  obtain rfl := (only _).mp delimited
  exact ⟨here, opens, read⟩

end FragmentBounds
