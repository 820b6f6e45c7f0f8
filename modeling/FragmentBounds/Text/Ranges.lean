/-! Sets of code points given by their ranges, lowest first. -/
namespace FragmentBounds.Text

/-- Whether one of the ranges, each given by its first and last member, holds
`point`. The search ends at the first range that lies above it. -/
def inRanges (point : Nat) : List (Nat × Nat) → Bool
  | [] => false
  | (first, last) :: ranges =>
    if point < first then false else decide (point ≤ last) || inRanges point ranges

/-- Whether the ranges are nonempty, start at `low` or above, and do not overlap. -/
def ascendingFrom (low : Nat) : List (Nat × Nat) → Bool
  | [] => true
  | (first, last) :: ranges =>
    decide (low ≤ first) && decide (first ≤ last) && ascendingFrom (last + 1) ranges

private theorem low_le_first {low : Nat} {ranges : List (Nat × Nat)}
    (ascending : ascendingFrom low ranges) : ∀ range ∈ ranges, low ≤ range.1 := by
  induction ranges generalizing low with
  | nil => simp
  | cons head ranges ih =>
    simp only [ascendingFrom, Bool.and_eq_true, decide_eq_true_eq] at ascending
    intro range member
    rcases List.mem_cons.mp member with rfl | member
    · exact ascending.1.1
    · have := ih ascending.2 range member
      omega

theorem inRanges_iff {low point : Nat} {ranges : List (Nat × Nat)}
    (ascending : ascendingFrom low ranges) :
    inRanges point ranges ↔ ∃ range ∈ ranges, range.1 ≤ point ∧ point ≤ range.2 := by
  induction ranges generalizing low with
  | nil => simp [inRanges]
  | cons head ranges ih =>
    simp only [ascendingFrom, Bool.and_eq_true, decide_eq_true_eq] at ascending
    rw [inRanges]
    split
    · next below =>
      constructor
      · nofun
      · rintro ⟨range, member, above, -⟩
        rcases List.mem_cons.mp member with rfl | member
        · omega
        · have := low_le_first ascending.2 range member
          omega
    · next reached =>
      simp only [Bool.or_eq_true, decide_eq_true_eq, ih ascending.2, List.mem_cons,
        exists_eq_or_imp]
      exact or_congr_left ⟨fun inside => ⟨by omega, inside⟩, And.right⟩

/-- A class that is tested in ASCII and looked up beyond it holds what passes the
test or lies in one of the ranges. -/
theorem test_or_inRanges_iff {test : Char → Bool} {ranges : List (Nat × Nat)} {c : Char}
    (plain : ∀ d, test d → d.toNat < 0x80) (ascending : ascendingFrom 0x80 ranges) :
    (if c.toNat < 0x80 then test c else inRanges c.toNat ranges) ↔
      test c ∨ ∃ range ∈ ranges, range.1 ≤ c.toNat ∧ c.toNat ≤ range.2 := by
  split
  · next low =>
    refine (or_iff_left ?_).symm
    rintro ⟨range, member, above, -⟩
    have beyond := low_le_first ascending range member
    omega
  · next high =>
    rw [inRanges_iff ascending]
    exact (or_iff_right fun passed => high (plain c passed)).symm

end FragmentBounds.Text
