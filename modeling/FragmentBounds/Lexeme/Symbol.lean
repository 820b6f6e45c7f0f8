import FragmentBounds.Lexeme.Basic

/-! Operators, brackets and punctuation, found in one table of spellings. The
longest spelling at the front of a text wins. -/
namespace FragmentBounds.Lexeme

def spellings : List (List Char × Tag) :=
  (Operator.all.map Tag.operator ++ Tag.punctuation).filterMap
      (fun tag => tag.spelling?.map fun text => (text.toList, tag)) ++
    Operator.compoundSpellings.map fun text => (text.toList, .operator .compoundAssign)

def ofSpelling? (text : List Char) : Option Tag :=
  (spellings.find? (·.1 == text)).map Prod.snd

def symbolUpTo? : (width : Nat) → Reader
  | 0, _ => none
  | width + 1, text =>
    match ofSpelling? (text.take (width + 1)) with
    | some tag => some (⟨tag, text.take (width + 1)⟩, text.drop (width + 1))
    | none => symbolUpTo? width text

/-- No spelling is longer than three characters. -/
def symbol? : Reader := symbolUpTo? 3

theorem length_spelling {text : List Char} {tag : Tag} (spelled : (text, tag) ∈ spellings) :
    0 < text.length ∧ text.length ≤ 3 := by
  have sizes : ∀ entry ∈ spellings, 0 < entry.1.length ∧ entry.1.length ≤ 3 := by decide
  exact sizes _ spelled

theorem mem_spellings_of_ofSpelling? {text : List Char} {tag : Tag}
    (spelled : ofSpelling? text = some tag) : (text, tag) ∈ spellings := by
  obtain ⟨⟨spelling, _⟩, found, same⟩ := Option.map_eq_some_iff.mp spelled
  cases same
  have same : spelling = text := by simpa using List.find?_some found
  exact same ▸ List.mem_of_find?_eq_some found

theorem symbolUpTo?_cuts (width : Nat) : Cuts (symbolUpTo? width) := by
  induction width with
  | zero => simp [Cuts, symbolUpTo?]
  | succ width ih =>
    intro text lexeme rest first
    rw [symbolUpTo?] at first
    split at first
    · next found =>
      obtain ⟨rfl, rfl⟩ := Prod.mk.inj (Option.some.inj first)
      have size := (length_spelling (mem_spellings_of_ofSpelling? found)).1
      exact ⟨List.ne_nil_of_length_pos size, List.take_append_drop ..⟩
    · exact ih first

theorem symbol?_cuts : Cuts symbol? := symbolUpTo?_cuts 3

end FragmentBounds.Lexeme
