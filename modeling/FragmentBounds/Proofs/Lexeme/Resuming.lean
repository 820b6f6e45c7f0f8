import FragmentBounds.Lexeme.Scanner

/-! Scanners set down anywhere in a text, inside a character too. After every
call a scanner is one that was set down where it has got to, and it ends with
the text. -/
namespace FragmentBounds

section Calls

variable {σ τ ι : Type} {call : σ → ι → σ → Prop} {other : τ → ι → τ → Prop}

/-- One call after another, each on the state that the one before it left. -/
inductive Calls (call : σ → ι → σ → Prop) : σ → List ι → σ → Prop
  | nil (state : σ) : Calls call state [] state
  | cons {state next last : σ} {item : ι} {items : List ι} (first : call state item next)
      (more : Calls call next items last) : Calls call state (item :: items) last

/-- Calls give the items, and from then on every call gives the same and changes
nothing. -/
def Exhausts (call : σ → ι → σ → Prop) (state : σ) (items : List ι) (ever : ι) (last : σ) : Prop :=
  Calls call state items last ∧ call last ever last

/-- States that keep in step give the same items. -/
theorem Calls.simulate {R : σ → τ → Prop} {state last : σ} {items : List ι} {here : τ}
    (calls : Calls call state items last) (begun : R state here)
    (step : ∀ state item next here, R state here → call state item next →
      ∃ there, other here item there ∧ R next there) :
    ∃ there, Calls other here items there ∧ R last there := by
  induction calls generalizing here with
  | nil => exact ⟨here, .nil here, begun⟩
  | cons first _ ih =>
    obtain ⟨middle, gives, keeps⟩ := step _ _ _ _ begun first
    obtain ⟨there, calls, ended⟩ := ih keeps
    exact ⟨there, .cons gives calls, ended⟩

end Calls

namespace Text

theorem resume_spec {count : Nat} {text : List Char} (inside : count ≤ byteSize text) :
    ∃ before, text = before ++ (resume count text).2 ∧
      byteSize before = count + (resume count text).1 ∧
      ∀ place, count ≤ place → place < count + (resume count text).1 →
        splitBytes? place text = none := by
  fun_induction resume count text with
  | case1 text => exact ⟨[], rfl, rfl, by omega⟩
  | case2 count => simp at inside
  | case3 count c text fits ih =>
    rw [byteSize_cons] at inside
    obtain ⟨before, parts, size, outside⟩ := ih (by omega)
    refine ⟨c :: before, congrArg (c :: ·) parts, by rw [byteSize_cons, size]; omega, ?_⟩
    intro place low high
    obtain ⟨place, rfl⟩ : ∃ n, place = n + 1 := ⟨place - 1, by omega⟩
    rw [splitBytes?, if_pos (by omega), outside _ (by omega) (by omega)]
    rfl
  | case4 count c text wide =>
    refine ⟨[c], rfl, by rw [byteSize_cons, byteSize_nil]; omega, ?_⟩
    intro place low high
    obtain ⟨place, rfl⟩ : ∃ n, place = n + 1 := ⟨place - 1, by omega⟩
    rw [splitBytes?, if_neg (by omega)]

theorem resume_succ {count stray : Nat} {text : List Char} (left : (resume count text).1 = stray + 1) :
    resume (count + 1) text = (stray, (resume count text).2) := by
  fun_induction resume count text with
  | case1 text => cases left
  | case2 count => cases left
  | case3 count c text fits ih =>
    rw [resume, if_pos (by omega), show count + 1 + 1 - c.utf8Size = count + 1 - c.utf8Size + 1 by omega]
    exact ih left
  | case4 count c text wide =>
    dsimp only at left ⊢
    rw [resume]
    split
    · rw [show count + 1 + 1 - c.utf8Size = 0 by omega, show stray = 0 by omega]
      cases text <;> rfl
    · rw [show c.utf8Size - (count + 1 + 1) = stray by omega]

end Text

namespace Scanner

variable {text : List Char} {pos : Nat}

/-- A call of `next` gives the piece and moves past it. -/
structure Gives (scanner : Scanner) (piece : Piece) (after : Scanner) : Prop where
  given : scanner.next = (piece, after)
  moved : after.pos = scanner.pos + piece.size

theorem toList_eq_nil {scanner : Scanner} : scanner.toList = [] ↔ scanner.isAtEnd := by
  constructor
  · intro none
    refine Decidable.byContradiction fun more => ?_
    rw [toList_next more] at none
    cases none
  · intro ended
    obtain ⟨pos, stray, rest⟩ := scanner
    simp only [isAtEnd, Bool.and_eq_true, beq_iff_eq, List.isEmpty_iff] at ended
    obtain ⟨rfl, rfl⟩ := ended
    rw [toList, pieces, lexemes_nil]
    rfl

theorem ofText_eq (inside : pos ≤ Text.byteSize text) :
    ofText text pos = ⟨pos, (Text.resume pos text).1, (Text.resume pos text).2⟩ := by
  rw [ofText, Nat.min_eq_left inside]

/-- A scanner goes on as one that is set down where it has got to. -/
theorem gives_ofText (inside : pos ≤ Text.byteSize text) :
    ∃ piece place, Gives (ofText text pos) piece (ofText text place) ∧
      place ≤ Text.byteSize text := by
  obtain ⟨before, parts, size, -⟩ := Text.resume_spec inside
  have whole := congrArg Text.byteSize parts
  rw [Text.byteSize_append, size] at whole
  rw [ofText_eq inside]
  cases stray : (Text.resume pos text).1 with
  | succ stray =>
    -- One byte further there is one byte less of the same character.
    have within : pos + 1 ≤ Text.byteSize text := by omega
    refine ⟨strayPiece, pos + 1, ?_, within⟩
    rw [ofText_eq within, Text.resume_succ ‹_›]
    exact ⟨rfl, rfl⟩
  | zero =>
    rw [stray, Nat.add_zero] at size
    cases first : Lexeme.first? (Text.resume pos text).2 with
    | none =>
      refine ⟨⟨.endOfInput, 0⟩, pos, ?_, inside⟩
      rw [ofText_eq inside, stray]
      exact ⟨by rw [next, first], rfl⟩
    | some found =>
      obtain ⟨lexeme, after⟩ := found
      have cut : text = (before ++ lexeme.text) ++ after := by
        rw [List.append_assoc, (Lexeme.first?_cuts first).2, ← parts]
      have place : pos + lexeme.byteSize = Text.byteSize (before ++ lexeme.text) := by
        rw [Text.byteSize_append, size, Lexeme.byteSize]
      have within : pos + lexeme.byteSize ≤ Text.byteSize text := by
        rw [place, cut, Text.byteSize_append (before ++ lexeme.text)]
        exact Nat.le_add_right _ _
      have behind : Text.resume (pos + lexeme.byteSize) text = (0, after) := by
        rw [place, cut, Text.resume_append]
      refine ⟨lexeme.piece, pos + lexeme.byteSize, ?_, within⟩
      rw [ofText_eq within, behind]
      exact ⟨by rw [next, first], rfl⟩

theorem exhausts_ofText (inside : pos ≤ Text.byteSize text) :
    Exhausts Gives (ofText text pos) (ofText text pos).toList ⟨.endOfInput, 0⟩
      ⟨Text.byteSize text, 0, []⟩ := by
  refine ⟨?_, next_of_isAtEnd rfl, rfl⟩
  -- By induction on the pieces left: there are some exactly while the end is not reached.
  generalize list : (ofText text pos).toList = found
  induction found generalizing pos with
  | nil =>
    have ended := toList_eq_nil.mp list
    obtain ⟨before, parts, size, -⟩ := Text.resume_spec inside
    rw [ofText_eq inside] at ended ⊢
    simp only [isAtEnd, Bool.and_eq_true, beq_iff_eq, List.isEmpty_iff] at ended
    rw [ended.2, List.append_nil] at parts
    rw [ended.1, Nat.add_zero, ← parts] at size
    rw [ended.1, ended.2, size]
    exact .nil _
  | cons piece found ih =>
    have more : ¬ (ofText text pos).isAtEnd := fun ended => by
      rw [toList_eq_nil.mpr ended] at list
      cases list
    obtain ⟨piece, place, gives, within⟩ := gives_ofText inside
    rw [toList_next more, gives.given] at list
    obtain ⟨rfl, rfl⟩ := List.cons.inj list
    exact .cons gives (ih within rfl)

end Scanner

end FragmentBounds
