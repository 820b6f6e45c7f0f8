import FragmentBounds.Proofs.Lexeme.Points
import FragmentBounds.Proofs.Token.ReadAt

/-! Symbols are read by maximal munch, and as their tags are spelled. Two slashes,
a slash and a star, or a point and a digit start something else. -/
namespace FragmentBounds

open Lexeme

/-- A text that begins with a spelling, and neither with a comment nor with a
numeral. -/
structure StartsSymbol (text : List Char) : Prop where
  spelled : ∃ spelling tag, Spells spelling tag ∧ spelling <+: text
  commentless : ¬ ['/', '/'] <+: text ∧ ¬ ['/', '*'] <+: text
  numberless : ∀ c, c.isDigit → ¬ ['.', c] <+: text

variable {text : List Char}

theorem exists_compound (spells : Spells text (.operator .compoundAssign)) :
    ∃ spelling ∈ Operator.compoundSpellings, text = spelling.toList := by
  cases spells with
  | fixed spelled => cases spelled
  | compound member => exact ⟨_, member, rfl⟩

theorem StartsSymbol.exists_symbol? (starts : StartsSymbol text) :
    ∃ found, symbol? text = some found := by
  obtain ⟨spelling, tag, spells, front⟩ := starts.spelled
  obtain ⟨positive, short⟩ := length_spelling (mem_spellings_iff.mpr spells)
  refine Option.ne_none_iff_exists'.mp fun none => ?_
  have unspelled := symbolUpTo?_eq_none.mp none spelling.length positive short
  rw [← List.prefix_iff_eq_take.mp front, ofSpelling?_eq_some.mpr spells] at unspelled
  cases unspelled

theorem StartsSymbol.first? (starts : StartsSymbol text) {found : Lexeme × List Char}
    (symbol : symbol? text = some found) : first? text = some found := by
  cases text with
  | nil => cases symbol
  | cons c text =>
    have behind {d : Char} (other : ¬ [c, d] <+: c :: text) : text.head? ≠ some d := by
      intro same
      apply other
      obtain ⟨rest, same⟩ := List.head?_eq_some_iff.mp same
      simp [same]
    apply first?_of_symbol? symbol
    · rintro rfl d next
      exact ⟨fun same => behind starts.commentless.1 (same ▸ next),
        fun same => behind starts.commentless.2 (same ▸ next)⟩
    · rintro rfl d next
      exact Bool.eq_false_iff.mpr fun digit => behind (starts.numberless d digit) next

/-- Where a text starts with a symbol, what is read has the longest spelling that
the text begins with, and the tag of that spelling. Every token that has the tag
of a symbol is spelled as its tag says. -/
theorem readAt_longest_spelling (source : String) :
    (∀ offset before rest, Text.splitBytes? offset source.toList = some (before, rest) →
      StartsSymbol rest → ∃ lexeme, ReadAt source offset lexeme ∧
        ∀ other, LongestSpelling rest other ↔ other = lexeme) ∧
    ∀ token ∈ tokens source,
      (∀ spelling, token.tag.spelling? = some spelling → token.text = spelling) ∧
      (token.tag = .operator .compoundAssign → token.text ∈ Operator.compoundSpellings) ∧
      (source.utf8ByteSize ≤ maxOffset →
        Checked.Hands ⟨source, token.span.start⟩ token ⟨source, token.span.stop⟩) := by
  constructor
  · intro offset before rest here starts
    obtain ⟨⟨lexeme, after⟩, symbol⟩ := starts.exists_symbol?
    refine ⟨lexeme, readAt_of_first? here (starts.first? symbol), fun other => ?_⟩
    rw [longestSpelling_iff]
    constructor
    · rintro ⟨_, also⟩
      exact (Prod.mk.inj (Option.some.inj (also.symm.trans symbol))).1
    · rintro rfl
      exact ⟨after, symbol⟩
  · intro token member
    obtain ⟨before, rest, lexeme, after, here, first, same⟩ := first?_of_mem_tokens member
    have read := readAt_of_first? here first
    rw [same]
    refine ⟨fun spelling spelled => ?_, fun compound => ?_, fun fits => read.onBytes fits⟩
    · simp only [Token.ofLexeme, text_of_spelling? first spelled, String.ofList_toList]
    · have compound : lexeme.tag = .operator .compoundAssign := compound
      have symbol : Spells "+=".toList lexeme.tag := compound ▸ .compound (by decide)
      have found := (symbol?_eq_some.mp (symbol?_of_first? first symbol)).2.1
      rw [compound] at found
      have spells := ofSpelling?_eq_some.mp found
      obtain ⟨spelling, member, text⟩ := exists_compound spells
      simpa only [Token.ofLexeme, text, String.ofList_toList] using member

/-- A bit clear and an equals sign are one symbol, though `&` and `&^` are
spellings too. -/
theorem readAt_longest_spelling_bit_clear :
    Text.splitBytes? 1 "x&^=y".toList = some (['x'], "&^=y".toList) ∧ StartsSymbol "&^=y".toList ∧
      ReadAt "x&^=y" 1 ⟨.operator .compoundAssign, "&^=".toList⟩ ∧
      (∀ other, LongestSpelling "&^=y".toList other ↔
        other = ⟨.operator .compoundAssign, "&^=".toList⟩) ∧
      ∃ token ∈ tokens "x&^=y", token.tag = .operator .compoundAssign ∧
        token.text ∈ Operator.compoundSpellings ∧ Checked.Hands ⟨"x&^=y", 1⟩ token ⟨"x&^=y", 4⟩ := by
  obtain ⟨reads, spelled⟩ := readAt_longest_spelling "x&^=y"
  have here : Text.splitBytes? 1 "x&^=y".toList = some (['x'], "&^=y".toList) := by decide +kernel
  have starts : StartsSymbol "&^=y".toList := by
    refine ⟨⟨"&".toList, .operator .ampersand, .fixed rfl, by decide⟩, by decide, ?_⟩
    rintro c - ⟨_, same⟩
    cases same
  have longer : LongestSpelling "&^=y".toList ⟨.operator .compoundAssign, "&^=".toList⟩ :=
    longestSpelling_iff.mpr ⟨['y'], by decide +kernel⟩
  have member : (⟨.operator .compoundAssign, ⟨1, 4⟩, "&^="⟩ : Token) ∈ tokens "x&^=y" := by
    decide +kernel
  obtain ⟨lexeme, read, longest⟩ := reads 1 _ _ here starts
  obtain rfl := (longest _).mp longer
  obtain ⟨-, compound, hands⟩ := spelled _ member
  exact ⟨here, starts, read, longest, _, member, rfl, compound rfl, hands (by decide)⟩

end FragmentBounds
