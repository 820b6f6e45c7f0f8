import FragmentBounds.Proofs.Fragment.Parts

/-! Where the fragments of each construct start and end. -/
namespace FragmentBounds

open Recognizer

variable {source : String} {span : Span}

namespace Arguments

theorem extent (recognized : recognizer.recognize source = .ok span) : Extent source 0 span := by
  obtain ⟨read, back, offset, parts, upcoming, rfl⟩ := parts recognized
  exact extent_of_upcoming parts.cut upcoming

end Arguments

namespace Label

theorem extent (recognized : recognizer.recognize source = .ok span) :
    Extent source 0 span ∧ span.start < span.stop := by
  obtain ⟨read, back, parts, covers⟩ := parts recognized
  exact extent_of_hull parts.cut covers

end Label

namespace Header

theorem extent {keyword : Keyword} (recognized : (recognizer keyword).recognize source = .ok span) :
    Extent source 1 span ∧ (keyword = .kwIf → span.start < span.stop) := by
  obtain ⟨before, word, read, back, offset, trivia, visible, parts, upcoming, rfl, filled⟩ :=
    parts recognized
  have index : ((before ++ [word]).filter fun token => !token.isTrivia).length = 1 := by
    rw [List.filter_append, filter_trivia trivia]
    simp [visible]
  have extent := extent_of_upcoming parts.cut upcoming
  rw [index] at extent
  exact ⟨extent, fun condition => (extent_of_hull parts.cut (filled condition)).2⟩

end Header

namespace Expression

theorem extent (recognized : recognizer.recognize source = .ok span) :
    Extent source 0 span ∧ span.start < span.stop := by
  obtain ⟨read, back, parts, covers⟩ := parts recognized
  exact extent_of_hull parts.cut covers

end Expression

end FragmentBounds
