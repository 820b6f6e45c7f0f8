import FragmentBounds.Proofs.Lexeme.NumeralFollowing
import FragmentBounds.Proofs.Lexeme.QuotedFollowing
import FragmentBounds.Proofs.Lexeme.Spelling

/-! Where one lexeme ends and the next begins. The first lexeme of a text is
kept when only what follows it changes, and so the lexemes of a text split at
every place where the left part cannot go on. -/
namespace FragmentBounds.Lexeme

/-- Which reader gives the first lexeme: the readers before it find nothing. -/
inductive FirstBy (text : List Char) (found : Lexeme × List Char) : Prop
  | trivia (first : trivia? text = some found)
  | word (plain : trivia? text = none) (first : word? text = some found)
  | numeral (plain : trivia? text = none) (wordless : word? text = none)
      (first : numeral? text = some found)
  | quoted (plain : trivia? text = none) (wordless : word? text = none)
      (numberless : numeral? text = none) (first : quoted? text = some found)
  | symbol (plain : trivia? text = none) (wordless : word? text = none)
      (numberless : numeral? text = none) (quoteless : quoted? text = none)
      (first : symbol? text = some found)
  | stray (plain : trivia? text = none) (wordless : word? text = none)
      (numberless : numeral? text = none) (quoteless : quoted? text = none)
      (symbolless : symbol? text = none) (first : stray? text = some found)

private theorem orElse_eq_some {α : Type} {left right : Option α} {a : α} :
    (left <|> right) = some a ↔ left = some a ∨ left = none ∧ right = some a := by
  cases left <;> simp

theorem FirstBy.trivia_of_ne_none {text : List Char} {found : Lexeme × List Char}
    (reader : FirstBy text found) (some_ : trivia? text ≠ none) : trivia? text = some found := by
  cases reader with
  | trivia first => exact first
  | word plain | numeral plain | quoted plain | symbol plain | stray plain =>
    exact absurd plain some_

theorem first?_eq_some {text : List Char} {found : Lexeme × List Char} :
    first? text = some found ↔ FirstBy text found := by
  simp only [first?, orElse_eq_some]
  constructor
  · rintro (first | ⟨plain, first | ⟨wordless, first | ⟨numberless, first |
      ⟨quoteless, first | ⟨symbolless, first⟩⟩⟩⟩⟩)
    · exact .trivia first
    · exact .word plain first
    · exact .numeral plain wordless first
    · exact .quoted plain wordless numberless first
    · exact .symbol plain wordless numberless quoteless first
    · exact .stray plain wordless numberless quoteless symbolless first
  · intro reader
    cases reader <;> simp_all

theorem trivia?_eq_none {c : Char} {text : List Char} :
    trivia? (c :: text) = none ↔ c ≠ '\n' ∧ c ≠ '\r' ∧ isBlank c = false ∧
      (c = '/' → Next (fun d => d ≠ '/' ∧ d ≠ '*') text) := by
  constructor
  · intro plain
    refine ⟨?_, ?_, ?_, ?_⟩
    · rintro rfl
      simp [trivia?] at plain
    · rintro rfl
      cases text with
      | nil => simp [trivia?] at plain
      | cons d text => by_cases feed : d = '\n' <;> simp [trivia?, feed] at plain
    · cases blank : isBlank c with
      | false => rfl
      | true => rcases isBlank_iff.mp blank with rfl | rfl <;> simp [trivia?, isBlank] at plain
    · rintro rfl
      cases text with
      | nil => simp
      | cons d text =>
        rw [next_cons]
        constructor
        · rintro rfl
          simp [trivia?] at plain
        · rintro rfl
          simp [trivia?] at plain
  · rintro ⟨feed, ret, blank, slash⟩
    unfold trivia?
    split <;> simp_all

theorem word?_eq_none {c : Char} {text : List Char} :
    word? (c :: text) = none ↔ isLetter c = false := by
  simp [word?]

theorem numeral?_eq_none {c : Char} {text : List Char} :
    numeral? (c :: text) = none ↔
      c.isDigit = false ∧ (c = '.' → Next (fun d => d.isDigit = false) text) := by
  have starts : numeral? (c :: text) = none ↔ startsNumeral (c :: text) = false := by
    simp [numeral?]
  rw [starts]
  by_cases point : c = '.'
  · subst point
    cases text with
    | nil => simp [startsNumeral]
    | cons d text => simp [startsNumeral]
  · simp [startsNumeral, point]

theorem quoted?_eq_none {c : Char} {text : List Char} :
    quoted? (c :: text) = none ↔ c ≠ '"' ∧ c ≠ '\'' ∧ c ≠ '\x60' := by
  unfold quoted?
  split <;> simp_all

theorem first?_of_quoted? {c : Char} {text : List Char} {found : Lexeme × List Char}
    (opens : c = '"' ∨ c = '\'' ∨ c = '\x60') (quoted : quoted? (c :: text) = some found) :
    first? (c :: text) = some found := by
  have plain : trivia? (c :: text) = none := by rcases opens with rfl | rfl | rfl <;> rfl
  have wordless : isLetter c = false := by rcases opens with rfl | rfl | rfl <;> decide
  have digitless : c.isDigit = false := by rcases opens with rfl | rfl | rfl <;> decide
  have pointless : c ≠ '.' := by rcases opens with rfl | rfl | rfl <;> decide
  refine first?_eq_some.mpr (.quoted plain (word?_eq_none.mpr wordless) ?_ quoted)
  exact numeral?_eq_none.mpr ⟨digitless, fun same => absurd same pointless⟩

private theorem head_of_mem_spellings : ∀ entry ∈ spellings, entry.1.head?.any fun c =>
    c != '\n' && c != '\r' && !isBlank c && !isLetter c && !c.isDigit && c != '"' && c != '\'' &&
      c != '\x60' := by
  decide +kernel

theorem first?_of_symbol? {c : Char} {text : List Char} {found : Lexeme × List Char}
    (symbol : symbol? (c :: text) = some found)
    (commentless : c = '/' → Next (fun d => d ≠ '/' ∧ d ≠ '*') text)
    (numberless : c = '.' → Next (fun d => d.isDigit = false) text) :
    first? (c :: text) = some found := by
  obtain ⟨tag, spelled⟩ : ∃ tag, ofSpelling? [c] = some tag := by
    refine Option.ne_none_iff_exists'.mp fun unspelled => ?_
    rw [symbol?_eq_none.mpr unspelled] at symbol
    cases symbol
  have head := head_of_mem_spellings _ (mem_spellings_of_ofSpelling? spelled)
  simp only [List.head?_cons, Option.any_some, Bool.and_eq_true, bne_iff_ne, ne_eq,
    Bool.not_eq_true'] at head
  obtain ⟨⟨⟨⟨⟨⟨⟨feed, ret⟩, blank⟩, letter⟩, digit⟩, double⟩, quote⟩, back⟩ := head
  refine first?_eq_some.mpr (.symbol ?_ (word?_eq_none.mpr letter) ?_ ?_ symbol)
  · exact trivia?_eq_none.mpr ⟨feed, ret, blank, commentless⟩
  · exact numeral?_eq_none.mpr ⟨digit, numberless⟩
  · exact quoted?_eq_none.mpr ⟨double, quote, back⟩

private theorem plain_keeps {c : Char} {body rest other : List Char}
    (plain : trivia? (c :: body ++ rest) = none) (look : c = '/' → body = [] → Look rest other) :
    trivia? (c :: body ++ other) = none := by
  obtain ⟨feed, ret, blank, slash⟩ := trivia?_eq_none.mp plain
  refine trivia?_eq_none.mpr ⟨feed, ret, blank, fun same => ?_⟩
  have next := slash same
  cases body with
  | cons d body => simpa using next
  | nil =>
    have all : separators.all fun d => d != '/' && d != '*' := by decide
    exact (look same rfl).next next fun d separated => by simpa using of_separates all separated

private theorem numberless_keeps {c : Char} {body rest other : List Char}
    (numberless : numeral? (c :: body ++ rest) = none)
    (look : c = '.' → body = [] → Look rest other) : numeral? (c :: body ++ other) = none := by
  obtain ⟨digit, point⟩ := numeral?_eq_none.mp numberless
  refine numeral?_eq_none.mpr ⟨digit, fun same => ?_⟩
  have next := point same
  cases body with
  | cons d body => simpa using next
  | nil =>
    have all : separators.all fun d => !d.isDigit := by decide
    exact (look same rfl).next next fun d separated => by simpa using of_separates all separated

private theorem Keeps.look {tag : Tag} {rest other : List Char} (keeps : Keeps tag rest other)
    (open_ : ∀ c, endsBefore tag c = separates c) : Look rest other := by
  rcases keeps with ⟨same, -⟩ | ended
  · exact .inl same
  · exact .inr (ended.imp fun c ends => by rwa [open_] at ends)

theorem numeral?_read {text rest : List Char} {lexeme : Lexeme}
    (first : numeral? text = some (lexeme, rest)) :
    lexeme.tag = .literal (Numeral.read text).1.kind ∧ lexeme.text = (Numeral.read text).1.text := by
  unfold numeral? at first
  split at first
  · obtain ⟨rfl, -⟩ := Prod.mk.inj (Option.some.inj first)
    exact ⟨rfl, rfl⟩
  · cases first

private theorem endsBefore_numeral {text rest : List Char} {lexeme : Lexeme}
    (first : numeral? text = some (lexeme, rest)) (c : Char) :
    endsBefore lexeme.tag c = separates c := by
  rw [(numeral?_read first).1, Numeral.kind]
  split
  · rfl
  · split <;> rfl

/-- The first lexeme of a text stays the same when what follows it changes to
something that looks the same or that it cannot go on with. -/
theorem first?_keeps {lexeme : Lexeme} {rest other : List Char}
    (first : first? (lexeme.text ++ rest) = some (lexeme, rest))
    (keeps : Keeps lexeme.tag rest other) :
    first? (lexeme.text ++ other) = some (lexeme, other) := by
  -- The reader that gave the lexeme gives it again, and those before it still find nothing:
  -- they tell from the first character, or from the one behind it, which the lexeme has itself
  -- unless it is a slash or a point alone.
  have nonempty := (first?_cuts first).1
  obtain ⟨c, body, text⟩ := List.exists_cons_of_ne_nil nonempty
  rw [first?_eq_some] at first ⊢
  cases first with
  | trivia first => exact .trivia (trivia?_keeps first keeps)
  | word plain first =>
    have look : Look rest other := by
      obtain ⟨_, _, rfl, -⟩ := word?_eq_some.mp first
      exact keeps.look fun _ => rfl
    have first := word?_keeps first keeps
    rw [text] at plain first ⊢
    exact .word (plain_keeps plain fun _ _ => look) first
  | numeral plain wordless first =>
    have look := keeps.look (endsBefore_numeral first)
    have first := numeral?_keeps first look
    rw [text] at plain wordless first ⊢
    rw [List.cons_append, word?_eq_none] at wordless
    exact .numeral (plain_keeps plain fun _ _ => look) (word?_eq_none.mpr wordless) first
  | quoted plain wordless numberless first =>
    have quote : ¬ (c ≠ '"' ∧ c ≠ '\'' ∧ c ≠ '\x60') := by
      intro other
      rw [text, List.cons_append, quoted?_eq_none.mpr other] at first
      simp at first
    have first := quoted?_keeps first keeps
    rw [text] at plain wordless numberless first ⊢
    rw [List.cons_append, word?_eq_none] at wordless
    refine .quoted (plain_keeps plain fun same => ?_) (word?_eq_none.mpr wordless)
      (numberless_keeps numberless fun same => ?_) first
    · simp [same] at quote
    · simp [same] at quote
  | symbol plain wordless numberless quoteless first =>
    have spelled := (symbol?_eq_some.mp first).2.1
    have first := symbol?_keeps first keeps
    rw [text] at plain wordless numberless quoteless first spelled ⊢
    rw [List.cons_append, word?_eq_none] at wordless
    rw [List.cons_append, quoted?_eq_none] at quoteless
    refine .symbol (plain_keeps plain fun same alone => ?_) (word?_eq_none.mpr wordless)
      (numberless_keeps numberless fun same alone => ?_) (quoted?_eq_none.mpr quoteless) first
    · have slash : ofSpelling? ['/'] = some (.operator .slash) := by decide
      rw [same, alone, slash] at spelled
      exact keeps.look fun d => by rw [← Option.some.inj spelled]; rfl
    · have dot : ofSpelling? ['.'] = some .dot := by decide
      rw [same, alone, dot] at spelled
      exact keeps.look fun d => by rw [← Option.some.inj spelled]; rfl
  | stray plain wordless numberless quoteless symbolless first =>
    rw [text] at plain wordless numberless quoteless symbolless first ⊢
    rw [List.cons_append, word?_eq_none] at wordless
    rw [List.cons_append, quoted?_eq_none] at quoteless
    rw [List.cons_append, symbol?_eq_none] at symbolless
    simp only [stray?, List.cons_append, Option.some.injEq, Prod.mk.injEq] at first
    have alone : body = [] := by
      rw [← first.1] at text
      simpa using text
    subst alone
    refine .stray (plain_keeps plain fun same => ?_) (word?_eq_none.mpr wordless)
      (numberless_keeps numberless fun same => ?_) (quoted?_eq_none.mpr quoteless)
      (symbol?_eq_none.mpr symbolless) ?_
    · rw [same] at symbolless
      simp [show ofSpelling? ['/'] = some (.operator .slash) by decide] at symbolless
    · rw [same] at symbolless
      simp [show ofSpelling? ['.'] = some .dot by decide] at symbolless
    · simp [stray?, first.1]

section Tags

variable {text rest : List Char} {lexeme : Lexeme}

theorem stray?_malformed (first : stray? text = some (lexeme, rest)) :
    lexeme.tag = .malformed .invalidCharacter := by
  unfold stray? at first
  split at first
  · cases first
  · rw [← (Prod.mk.inj (Option.some.inj first)).1]

theorem cases_of_first? (first : first? text = some (lexeme, rest)) :
    word? text = some (lexeme, rest) ∨ symbol? text = some (lexeme, rest) ∨
      (lexeme.tag.isLiteral || lexeme.tag.isTrivia || lexeme.tag.isMalformed) := by
  cases first?_eq_some.mp first with
  | trivia first => exact .inr (.inr (by cases triviaForm_of_read first <;> rfl))
  | word _ first => exact .inl first
  | numeral _ _ first => exact .inr (.inr (by rw [(numeral?_read first).1]; rfl))
  | quoted _ _ _ first =>
    refine .inr (.inr ?_)
    cases quotedForm_of_read first with
    | rune => split <;> rfl
    | _ => rfl
  | symbol _ _ _ _ first => exact .inr (.inl first)
  | stray _ _ _ _ _ first => exact .inr (.inr (by rw [stray?_malformed first]; rfl))

private theorem kind_of_mem_spellings : ∀ entry ∈ spellings, entry.2 ≠ .identifier ∧
    entry.2 ≠ .endOfInput ∧
    (entry.2.isLiteral || entry.2.isTrivia || entry.2.isMalformed) = false := by
  decide +kernel

theorem word?_of_first? (first : first? text = some (lexeme, rest))
    (identifier : lexeme.tag = .identifier) : word? text = some (lexeme, rest) := by
  rcases cases_of_first? first with word | symbol | other
  · exact word
  · have spelled := (symbol?_eq_some.mp symbol).2.1
    exact absurd identifier (kind_of_mem_spellings _ (mem_spellings_of_ofSpelling? spelled)).1
  · rw [identifier] at other
    cases other

theorem symbol?_of_first? {spelling : List Char} (first : first? text = some (lexeme, rest))
    (spells : Spells spelling lexeme.tag) : symbol? text = some (lexeme, rest) := by
  obtain ⟨wordless, -, kind⟩ := kind_of_mem_spellings _ (mem_spellings_iff.mpr spells)
  rcases cases_of_first? first with word | symbol | other
  · obtain ⟨_, _, rfl, -⟩ := word?_eq_some.mp word
    exact absurd rfl wordless
  · exact symbol
  · rw [kind] at other
    cases other

theorem tag_ne_endOfInput (first : first? text = some (lexeme, rest)) :
    lexeme.tag ≠ .endOfInput := by
  intro ended
  rcases cases_of_first? first with word | symbol | other
  · obtain ⟨_, _, rfl, -⟩ := word?_eq_some.mp word
    cases ended
  · have spelled := (symbol?_eq_some.mp symbol).2.1
    exact (kind_of_mem_spellings _ (mem_spellings_of_ofSpelling? spelled)).2.1 ended
  · rw [ended] at other
    cases other

end Tags

end FragmentBounds.Lexeme
