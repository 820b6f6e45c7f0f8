import FragmentBounds.Proofs.Lexeme.Following

/-! What may follow a symbol. A symbol is the longest spelling in front of the
text, and every spelling grows one character at a time out of shorter ones,
except that two points are none. -/
namespace FragmentBounds.Lexeme

private theorem spelling_extends : ∀ short ∈ spellings, ∀ long ∈ spellings,
    short.1.length < long.1.length → long.1.take short.1.length = short.1 →
      (ofSpelling? (long.1.take (short.1.length + 1))).isSome ∨
        (short.2 = .dot ∧ long.1 = ['.', '.', '.']) := by
  decide +kernel

private theorem endsBefore_spelling : ∀ short ∈ spellings, ∀ long ∈ spellings,
    short.1.length < long.1.length → long.1.take short.1.length = short.1 →
      (long.1.drop short.1.length).head?.all fun c => !endsBefore short.2 c := by
  decide +kernel

private theorem spelling_first : ∀ entry ∈ spellings, (ofSpelling? (entry.1.take 1)).isSome := by
  decide +kernel

private theorem length_le_of_prefix_take {long text : List Char} {width : Nat}
    (front : long <+: text) (short : long.length ≤ width) :
    long.length ≤ (text.take width).length := by
  have := front.length_le
  simp only [List.length_take]
  omega

theorem symbolUpTo?_eq_some {width : Nat} {text rest : List Char} {lexeme : Lexeme} :
    symbolUpTo? width text = some (lexeme, rest) ↔ text = lexeme.text ++ rest ∧
      ofSpelling? lexeme.text = some lexeme.tag ∧ lexeme.text.length ≤ width ∧
      ∀ long tag, ofSpelling? long = some tag → long <+: text → long.length ≤ width →
        long.length ≤ lexeme.text.length := by
  induction width with
  | zero =>
    constructor
    · simp [symbolUpTo?]
    · rintro ⟨-, spelled, short, -⟩
      have size := (length_spelling (mem_spellings_of_ofSpelling? spelled)).1
      omega
  | succ width ih =>
    rw [symbolUpTo?]
    split
    · next tag found =>
      constructor
      · intro first
        cases first
        refine ⟨(List.take_append_drop ..).symm, found, List.length_take_le .., ?_⟩
        exact fun long _ _ front short => length_le_of_prefix_take front short
      · rintro ⟨rfl, spelled, short, longest⟩
        have size := longest _ _ found (List.take_prefix ..) (List.length_take_le ..)
        simp only [List.length_take, List.length_append] at size
        have behind : rest.take (width + 1 - lexeme.text.length) = [] := by
          rw [List.take_eq_nil_iff]
          rcases Nat.lt_or_ge width lexeme.text.length with whole | shorter
          · exact .inl (by omega)
          · exact .inr (List.length_eq_zero_iff.mp (by omega))
        have front : (lexeme.text ++ rest).take (width + 1) = lexeme.text := by
          rw [List.take_append, behind, List.append_nil, List.take_of_length_le short]
        have after : (lexeme.text ++ rest).drop (width + 1) = rest := by
          have whole := List.take_append_drop (width + 1) (lexeme.text ++ rest)
          rw [front] at whole
          exact List.append_cancel_left whole
        rw [front, spelled] at found
        cases found
        rw [front, after]
    · next unspelled =>
      -- Nothing of the full width is a spelling, so the bound may be lowered.
      have fits {long : List Char} {tag : Tag} (spelled : ofSpelling? long = some tag)
          (front : long <+: text) (short : long.length ≤ width + 1) : long.length ≤ width := by
        rcases Nat.lt_or_eq_of_le short with shorter | full
        · omega
        · rw [List.prefix_iff_eq_take.mp front, full, unspelled] at spelled
          simp at spelled
      rw [ih]
      constructor
      · rintro ⟨whole, spelled, short, longest⟩
        exact ⟨whole, spelled, by omega, fun long tag found front size =>
          longest long tag found front (fits found front size)⟩
      · rintro ⟨whole, spelled, short, longest⟩
        have front : lexeme.text <+: text := ⟨rest, whole.symm⟩
        exact ⟨whole, spelled, fits spelled front short, fun long tag found front size =>
          longest long tag found front (by omega)⟩

theorem symbolUpTo?_eq_none {width : Nat} {text : List Char} :
    symbolUpTo? width text = none ↔
      ∀ size, 0 < size → size ≤ width → ofSpelling? (text.take size) = none := by
  induction width with
  | zero =>
    simp only [symbolUpTo?, true_iff]
    omega
  | succ width ih =>
    rw [symbolUpTo?]
    split
    · next tag found =>
      constructor
      · simp
      · intro unspelled
        rw [unspelled (width + 1) (by omega) (by omega)] at found
        simp at found
    · next unspelled =>
      rw [ih]
      constructor
      · intro shorter size positive short
        rcases Nat.lt_or_eq_of_le short with less | full
        · exact shorter size positive (by omega)
        · rw [full, unspelled]
      · exact fun all size positive short => all size positive (by omega)

theorem symbol?_eq_none {c : Char} {text : List Char} :
    symbol? (c :: text) = none ↔ ofSpelling? [c] = none := by
  rw [symbol?, symbolUpTo?_eq_none]
  constructor
  · intro unspelled
    exact unspelled 1 (by omega) (by omega)
  · intro unspelled size positive short
    obtain ⟨size, rfl⟩ : ∃ n, size = n + 1 := ⟨size - 1, by omega⟩
    cases found : ofSpelling? ((c :: text).take (size + 1)) with
    | none => rfl
    | some tag =>
      have first := spelling_first _ (mem_spellings_of_ofSpelling? found)
      simp [unspelled] at first

theorem symbol?_eq_some {text rest : List Char} {lexeme : Lexeme} :
    symbol? text = some (lexeme, rest) ↔ text = lexeme.text ++ rest ∧
      ofSpelling? lexeme.text = some lexeme.tag ∧
      ∀ long tag, ofSpelling? long = some tag → long <+: text →
        long.length ≤ lexeme.text.length := by
  have short {long : List Char} {tag : Tag} (spelled : ofSpelling? long = some tag) :
      long.length ≤ 3 := (length_spelling (mem_spellings_of_ofSpelling? spelled)).2
  rw [symbol?, symbolUpTo?_eq_some]
  constructor
  · rintro ⟨whole, spelled, -, longest⟩
    exact ⟨whole, spelled, fun long tag found front => longest long tag found front (short found)⟩
  · rintro ⟨whole, spelled, longest⟩
    exact ⟨whole, spelled, short spelled, fun long tag found front _ =>
      longest long tag found front⟩

theorem spelling_dot : ∀ entry ∈ spellings, entry.2 = .dot → entry.1 = ['.'] := by
  decide +kernel

theorem symbol?_keeps {lexeme : Lexeme} {rest other : List Char}
    (first : symbol? (lexeme.text ++ rest) = some (lexeme, rest))
    (keeps : Keeps lexeme.tag rest other) :
    symbol? (lexeme.text ++ other) = some (lexeme, other) := by
  obtain ⟨-, spelled, longest⟩ := symbol?_eq_some.mp first
  refine symbol?_eq_some.mpr ⟨rfl, spelled, fun long tag found front => ?_⟩
  rcases Nat.lt_or_ge lexeme.text.length long.length with longer | shorter
  · exfalso
    have shortEntry := mem_spellings_of_ofSpelling? spelled
    have longEntry := mem_spellings_of_ofSpelling? found
    obtain ⟨more, rfl⟩ : lexeme.text <+: long :=
      List.prefix_of_prefix_length_le (List.prefix_append ..) front (by omega)
    obtain ⟨behind, whole⟩ := front
    rw [List.append_assoc, List.append_cancel_left_eq] at whole
    cases more with
    | nil => simp at longer
    | cons c more =>
      have head : other.head? = some c := by rw [← whole]; rfl
      -- A longer spelling grows by one character, which was there before. Only an ellipsis
      -- grows by two at once.
      rcases keeps with ⟨same, point⟩ | ended
      · rcases spelling_extends _ shortEntry _ longEntry longer (List.take_left ..) with
          grown | ⟨dot, spread⟩
        · obtain ⟨tag, grown⟩ := Option.isSome_iff_exists.mp grown
          have cut : (lexeme.text ++ c :: more).take (lexeme.text.length + 1) =
              lexeme.text ++ [c] := by
            rw [List.take_append, List.take_of_length_le (by omega)]
            simp
          simp only [cut] at grown
          obtain ⟨text, rfl⟩ := List.head?_eq_some_iff.mp (same.symm.trans head)
          have bound := longest _ tag grown ⟨text, by simp⟩
          simp only [List.length_append, List.length_cons, List.length_nil] at bound
          omega
        · have text : lexeme.text = ['.'] := spelling_dot _ shortEntry dot
          simp only [text, List.cons_append, List.nil_append, List.cons.injEq,
            true_and] at spread
          refine point dot ⟨behind, ?_⟩
          rw [← whole, spread.1, spread.2]
      · have inside := endsBefore_spelling _ shortEntry _ longEntry longer (List.take_left ..)
        have ends := ended c head
        simp [ends] at inside
  · exact shorter

end FragmentBounds.Lexeme
