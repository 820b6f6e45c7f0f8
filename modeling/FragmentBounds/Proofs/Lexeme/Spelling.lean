import FragmentBounds.Proofs.Lexeme.SymbolFollowing

/-! How symbols are spelled, by their tags, and the longest spelling that a text
begins with. -/
namespace FragmentBounds

/-- A tag with one spelling is spelled so. Compound assignments have one tag
between them. -/
inductive Spells : List Char → Tag → Prop
  | fixed {tag : Tag} {spelling : String} (spelled : tag.spelling? = some spelling) :
      Spells spelling.toList tag
  | compound {spelling : String} (member : spelling ∈ Operator.compoundSpellings) :
      Spells spelling.toList (.operator .compoundAssign)

/-- A lexeme with the longest of the spellings that a text begins with. -/
structure LongestSpelling (text : List Char) (lexeme : Lexeme) : Prop where
  spells : Spells lexeme.text lexeme.tag
  front : lexeme.text <+: text
  longest : ∀ other tag, Spells other tag → other <+: text → other.length ≤ lexeme.text.length

namespace Lexeme

variable {text : List Char} {tag : Tag} {lexeme : Lexeme}

theorem mem_spellings_iff : (text, tag) ∈ spellings ↔ Spells text tag := by
  simp only [spellings, List.mem_append, List.mem_filterMap, List.mem_map, Option.map_eq_some_iff,
    Prod.mk.injEq]
  constructor
  · rintro (⟨_, -, spelling, spelled, rfl, rfl⟩ | ⟨spelling, member, rfl, rfl⟩)
    · exact .fixed spelled
    · exact .compound member
  · intro spells
    cases spells with
    | fixed spelled =>
      have listed := Tag.mem_punctuation_or_operator spelled
      refine .inl ⟨tag, ?_, _, spelled, rfl, rfl⟩
      rcases listed with member | ⟨kind, member, rfl⟩
      · exact .inr member
      · exact .inl ⟨kind, member, rfl⟩
    | compound member => exact .inr ⟨_, member, rfl, rfl⟩

private theorem ofSpelling?_of_mem : ∀ entry ∈ spellings, ofSpelling? entry.1 = some entry.2 := by
  decide +kernel

theorem ofSpelling?_eq_some : ofSpelling? text = some tag ↔ Spells text tag := by
  rw [← mem_spellings_iff]
  exact ⟨mem_spellings_of_ofSpelling?, fun member => ofSpelling?_of_mem _ member⟩

theorem longestSpelling_iff :
    LongestSpelling text lexeme ↔ ∃ rest, symbol? text = some (lexeme, rest) := by
  simp only [symbol?_eq_some, ofSpelling?_eq_some]
  constructor
  · rintro ⟨spells, ⟨rest, whole⟩, longest⟩
    exact ⟨rest, whole.symm, spells, longest⟩
  · rintro ⟨rest, whole, spells, longest⟩
    exact ⟨spells, ⟨rest, whole.symm⟩, longest⟩

end Lexeme

end FragmentBounds
