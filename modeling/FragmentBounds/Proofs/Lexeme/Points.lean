import FragmentBounds.Proofs.Lexeme.Splitting

/-! How points are cut into lexemes. Of the lexemes that end with a point only a
spread mark ends with two, so that three points at the end of a text are one,
unless a numeral or another spread mark takes the first of them. -/
namespace FragmentBounds

namespace Lexeme

variable {lexeme : Lexeme} {rest front : List Char}

theorem commentBody?_ends {text body : List Char} (closed : commentBody? text = some (body, rest)) :
    ∃ inner, body = inner ++ ['/'] := by
  fun_induction commentBody? text generalizing body with
  | case1 => simp at closed
  | case2 =>
    cases closed
    exact ⟨['*'], rfl⟩
  | case3 c text _ ih =>
    obtain ⟨⟨inner, after⟩, found, same⟩ := Option.map_eq_some_iff.mp closed
    cases same
    obtain ⟨more, rfl⟩ := ih found
    exact ⟨c :: more, rfl⟩

private theorem point_notMem_takeWhile (text : List Char) {p : Char → Bool} (other : p '.' = false) :
    '.' ∉ text.takeWhile p := by
  intro member
  simp [of_mem_takeWhile member] at other

private theorem point_notMem_mark (text : List Char) : '.' ∉ (radixMark text).2.1 := by
  unfold radixMark
  split
  · split
    · next c _ _ radix mark =>
      have other : c ≠ '.' := by
        rintro rfl
        cases mark
      simpa using other.symm
    · simp
  · simp

private theorem count_fraction (radix : Radix) (text : List Char) :
    (fraction radix text).1.count '.' ≤ 1 := by
  have digits (text : List Char) : (text.takeWhile radix.isDigit).count '.' = 0 :=
    List.count_eq_zero.mpr (point_notMem_takeWhile text (by cases radix <;> decide))
  unfold fraction
  split
  · split <;> simp [digits]
  · simp

private theorem point_notMem_exponent (radix : Radix) (text : List Char) :
    '.' ∉ (exponent radix text).1 := by
  have mark : radix.isExponentMark '.' = false := by cases radix <;> decide
  have digits (text : List Char) := point_notMem_takeWhile text (p := isDecimalDigit) (by decide)
  unfold exponent
  split
  · simp
  · next c text =>
    split
    · next marked =>
      have other : '.' ≠ c := by
        rintro rfl
        simp [mark] at marked
      have signless : '.' ∉ (sign text).1 := by
        unfold sign
        split <;> simp
      simp [other, signless, digits]
    · simp

theorem count_point_numeral (text : List Char) : (Numeral.read text).1.text.count '.' ≤ 1 := by
  have whole := point_notMem_takeWhile (radixMark text).2.2 (p := (radixMark text).1.isDigit)
    (by cases (radixMark text).1 <;> decide)
  have unit (text : List Char) : '.' ∉ (imaginaryUnit text).1 := by
    unfold imaginaryUnit
    split <;> simp
  have fractional := count_fraction (radixMark text).1
    ((radixMark text).2.2.dropWhile (radixMark text).1.isDigit)
  simpa [Numeral.read, Numeral.text, List.count_eq_zero.mpr (point_notMem_mark text),
    List.count_eq_zero.mpr whole, List.count_eq_zero.mpr (point_notMem_exponent _ _),
    List.count_eq_zero.mpr (unit _)] using fractional

theorem spelling_point : ∀ entry ∈ spellings, entry.1.getLast? = some '.' →
    entry = (['.'], .dot) ∨ entry = (['.', '.', '.'], .ellipsis) := by
  decide +kernel

theorem spelling_of_spelling? : ∀ entry ∈ spellings,
    entry.2.spelling?.all fun spelling => spelling.toList == entry.1 := by
  decide +kernel

theorem TriviaForm.of_point (form : TriviaForm lexeme rest) (point : lexeme.text = front ++ ['.'])
    (sound : lexeme.tag.isMalformed = false) : lexeme.tag.isTrivia ∧ Next (· = '\n') rest := by
  have last := congrArg List.getLast? point
  rw [List.getLast?_concat] at last
  cases form with
  | lineFeed | returnFeed | loneReturn => simp at last
  | lineComment _ ended => exact ⟨rfl, ended⟩
  | blockComment closed =>
    obtain ⟨inner, rfl⟩ := commentBody?_ends closed
    rw [← List.cons_append, ← List.cons_append, List.getLast?_concat] at last
    simp at last
  | openComment => cases sound
  | @blanks c run _ first inside ended =>
    have blank : isBlank '.' := by
      rcases List.mem_cons.mp (List.mem_of_getLast? last) with rfl | member
      · exact first
      · exact inside _ member
    cases blank

theorem QuotedForm.not_point (form : QuotedForm lexeme rest) (sound : lexeme.tag.isMalformed = false) :
    lexeme.text ≠ front ++ ['.'] := by
  intro point
  have last := congrArg List.getLast? point
  rw [List.getLast?_concat] at last
  cases form with
  | string | rune | rawString => simp [List.getLast?_cons] at last
  | openString | openRune | openRawString => cases sound

theorem cases_of_point (first : first? (lexeme.text ++ rest) = some (lexeme, rest))
    (sound : lexeme.tag.isMalformed = false) (point : lexeme.text = front ++ ['.']) :
    (lexeme.tag.isTrivia ∧ Next (· = '\n') rest) ∨ lexeme = ⟨.dot, ['.']⟩ ∨
      lexeme = ⟨.ellipsis, ['.', '.', '.']⟩ ∨
        lexeme.tag.isLiteral ∧ lexeme.text.count '.' ≤ 1 := by
  cases first?_eq_some.mp first with
  | trivia first => exact .inl ((triviaForm_of_read first).of_point point sound)
  | word _ first =>
    obtain ⟨c, run, rfl, -, letter, inside, -⟩ := word?_eq_some.mp first
    have point : c :: run = front ++ ['.'] := point
    have member : '.' ∈ c :: run := by simp [point]
    have word : isLetterOrDigit '.' := by
      rcases List.mem_cons.mp member with rfl | member
      · simp [isLetterOrDigit, letter]
      · exact inside _ member
    exact absurd word (by decide +kernel)
  | numeral _ _ first =>
    obtain ⟨tag, text⟩ := numeral?_read first
    have single := count_point_numeral (lexeme.text ++ rest)
    rw [← text] at single
    exact .inr (.inr (.inr ⟨by rw [tag]; rfl, single⟩))
  | quoted _ _ _ first => exact absurd point ((quotedForm_of_read first).not_point sound)
  | symbol _ _ _ _ first =>
    obtain ⟨-, spelled, -⟩ := symbol?_eq_some.mp first
    have last : lexeme.text.getLast? = some '.' := by rw [point, List.getLast?_concat]
    obtain ⟨tag, text⟩ := lexeme
    rcases spelling_point _ (mem_spellings_of_ofSpelling? spelled) last with same | same <;>
      cases same
    · exact .inr (.inl rfl)
    · exact .inr (.inr (.inl rfl))
  | stray _ _ _ _ _ first =>
    rw [stray?_malformed first] at sound
    cases sound

theorem text_of_spelling? {text : List Char} (first : first? text = some (lexeme, rest))
    {spelling : String} (spelled : lexeme.tag.spelling? = some spelling) :
    lexeme.text = spelling.toList := by
  obtain ⟨-, found, -⟩ := symbol?_eq_some.mp (symbol?_of_first? first (.fixed spelled))
  have same := spelling_of_spelling? _ (mem_spellings_of_ofSpelling? found)
  rw [spelled, Option.all_some, beq_iff_eq] at same
  exact same.symm

end Lexeme

open Lexeme

private theorem lexemes_behind_points {reached rest : List Char}
    (points : ['.', '.', '.'] = reached ++ rest) (taken : reached ≠ []) :
    lexemes rest = List.replicate rest.length ⟨.dot, ['.']⟩ := by
  rcases reached with _ | ⟨_, _ | ⟨_, _ | ⟨_, _⟩⟩⟩
  · exact absurd rfl taken
  all_goals simp at points
  · rw [← points.2]; decide +kernel
  · rw [← points.2.2]; decide +kernel
  · rw [points.2.2.2.2]; decide +kernel

theorem text_of_mem_lexemes {text : List Char} {lexeme : Lexeme} (member : lexeme ∈ lexemes text)
    {spelling : String} (spelled : lexeme.tag.spelling? = some spelling) :
    lexeme.text = spelling.toList := by
  obtain ⟨front, back, cut⟩ := List.append_of_mem member
  obtain ⟨rest, first, -, -⟩ := lexemes_eq_cons (lexemes_split cut).2
  exact text_of_spelling? first spelled

/-- At the end are a spread mark and perhaps points behind it, or a literal and two
points. -/
def EndsInPoints (lexemes : List Lexeme) : Prop :=
  ∃ before mark after, lexemes = before ++ mark :: after ∧
    (∀ lexeme ∈ after, lexeme.tag = .dot) ∧
      (mark.tag = .ellipsis ∨ mark.tag.isLiteral ∧ after.length = 2)

theorem EndsInPoints.cons {lexemes : List Lexeme} (ends : EndsInPoints lexemes) (lexeme : Lexeme) :
    EndsInPoints (lexeme :: lexemes) := by
  obtain ⟨before, mark, after, rfl, dots, marked⟩ := ends
  exact ⟨lexeme :: before, mark, after, rfl, dots, marked⟩

private theorem endsInPoints_of_taken {lexeme : Lexeme} {front taken rest : List Char}
    (first : first? (lexeme.text ++ rest) = some (lexeme, rest))
    (sound : lexeme.tag.isMalformed = false) (visible : rest = [] → lexeme.tag.isTrivia = false)
    (ends : lexeme.text = (front ++ taken) ++ ['.'])
    (points : ['.', '.', '.'] = taken ++ '.' :: rest) : EndsInPoints (lexeme :: lexemes rest) := by
  have after : lexemes rest = List.replicate rest.length ⟨.dot, ['.']⟩ :=
    @lexemes_behind_points (taken ++ ['.']) rest (by simp [points]) (by simp)
  have dots : ∀ other ∈ lexemes rest, other.tag = .dot := by
    rw [after]
    intro other member
    rw [(List.mem_replicate.mp member).2]
  have all : ∀ d ∈ taken ++ '.' :: rest, d = '.' := by simp [← points]
  have alone (none : taken = []) : rest = ['.', '.'] := by
    rw [none] at points
    exact (List.cons.inj points).2.symm
  rcases cases_of_point first sound ends with ⟨trivia, ended⟩ | rfl | rfl | ⟨literal, single⟩
  · cases rest with
    | nil => simp [trivia] at visible
    | cons d more =>
      obtain rfl : d = '.' := all d (by simp)
      exact absurd (ended '.' rfl) (by decide)
  · have none : taken = [] := by
      have length := congrArg List.length ends
      simp only [List.length_append, List.length_singleton] at length
      exact List.length_eq_zero_iff.mp (by omega)
    exact absurd (alone none ▸ List.prefix_rfl) (not_points_of_dot first rfl)
  · exact ⟨[], _, _, rfl, dots, .inl rfl⟩
  · have none : taken = [] := by
      have count : taken.count '.' = taken.length :=
        List.count_eq_length.mpr fun d member => (all d (by simp [member])).symm
      rw [ends, List.count_append, List.count_append, count] at single
      simp only [List.count_singleton_self] at single
      exact List.length_eq_zero_iff.mp (by omega)
    exact ⟨[], _, _, rfl, dots, .inr ⟨literal, by rw [after, alone none]; rfl⟩⟩

/-- Three points at the end of a text are a spread mark. Otherwise the first of
them belongs to another spread mark, or to a numeral, and the rest are points on
their own. -/
theorem endsInPoints_lexemes {text front : List Char} (points : text = front ++ ['.', '.', '.'])
    (sound : ∀ lexeme ∈ lexemes text, lexeme.tag.isMalformed = false)
    (visible : ∀ last ∈ (lexemes text).getLast?, last.tag.isTrivia = false) :
    EndsInPoints (lexemes text) := by
  fun_induction lexemes text generalizing front with
  | case1 text none => simp [first?_eq_none.mp none] at points
  | case2 text lexeme rest first ih =>
    have whole := (first?_cuts first).2
    rw [← whole] at first
    have later {between : List Char} (behind : rest = between ++ ['.', '.', '.']) :
        EndsInPoints (lexeme :: lexemes rest) := by
      refine (ih behind ?_ ?_).cons lexeme
      · exact fun other member => sound other (List.mem_cons_of_mem _ member)
      · intro last member
        exact visible last (by rw [List.getLast?_cons, Option.mem_def.mp member]; rfl)
    rcases List.append_eq_append_iff.mp (whole.trans points) with
      ⟨between, -, behind⟩ | ⟨reached, ends, behind⟩
    · exact later behind
    rcases List.eq_nil_or_concat reached with rfl | ⟨taken, c, rfl⟩
    · exact @later [] (by simpa using behind.symm)
    · rw [List.concat_eq_append, List.append_assoc, List.singleton_append] at behind
      have all : ∀ d ∈ ['.', '.', '.'], d = '.' := by simp
      rw [behind] at all
      obtain rfl : c = '.' := all c (by simp)
      have alone (none : rest = []) : lexeme.tag.isTrivia = false :=
        visible lexeme (by simp [none, lexemes_nil])
      exact endsInPoints_of_taken first (sound _ List.mem_cons_self) alone (by simpa using ends) behind

end FragmentBounds
