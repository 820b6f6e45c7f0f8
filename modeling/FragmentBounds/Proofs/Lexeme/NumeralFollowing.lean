import FragmentBounds.Proofs.Lexeme.Following

/-! What may follow a numeral. Each piece is read as far as it goes, so the
character behind a piece settles where it ends. -/
namespace FragmentBounds.Lexeme

/-- The reader of a piece stops at the same place before another text that
looks the same. -/
private def Stable (read : List Char → List Char × List Char) : Prop :=
  ∀ ⦃piece rest other⦄, read (piece ++ rest) = (piece, rest) → Look rest other →
    read (piece ++ other) = (piece, other)

private theorem head?_of_look {rest other : List Char} {c : Char}
    (look : Look rest (c :: other)) (inside : separates c = false) : rest.head? = some c := by
  rcases look with same | separated
  · exact same.symm
  · simp [inside] at separated

private theorem digits_stable {p : Char → Bool} (outside : ∀ c, separates c → p c = false) :
    Stable fun text => (text.takeWhile p, text.dropWhile p) := by
  intro piece rest other read look
  obtain ⟨run, after⟩ := Prod.mk.inj read
  have inside : ∀ c ∈ piece, p c := fun c member => of_mem_takeWhile (run.symm ▸ member)
  have ended : Next (fun c => p c = false) rest := by
    have next := next_dropWhile p (piece ++ rest)
    rwa [after] at next
  have ended := look.next ended outside
  exact Prod.ext (takeWhile_of_next inside ended) (dropWhile_of_next inside ended)

private theorem isDigit_of_separates (radix : Radix) (c : Char) (separated : separates c) :
    radix.isDigit c = false := by
  have all : separators.all fun c => !radix.isDigit c := by cases radix <;> decide
  simpa using of_separates all separated

private theorem ofMark?_of_separates {c : Char} (separated : separates c) :
    Radix.ofMark? c = none := by
  have all : separators.all fun c => (Radix.ofMark? c).isNone := by decide
  simpa using of_separates all separated

private theorem isExponentMark_of_separates (radix : Radix) {c : Char} (separated : separates c) :
    radix.isExponentMark c = false := by
  have all : separators.all fun c => !radix.isExponentMark c := by cases radix <;> decide
  simpa using of_separates all separated

private theorem fraction_stable (radix : Radix) : Stable (fraction radix) := by
  intro piece rest other read look
  cases piece with
  | nil =>
    cases other with
    | nil => rfl
    | cons c other =>
      by_cases point : c = '.'
      · subst point
        obtain ⟨text, rfl⟩ := List.head?_eq_some_iff.mp (head?_of_look look (by decide))
        by_cases divided : radix.hasFraction <;> simp [fraction, divided] at read ⊢
      · simp [fraction, point]
  | cons c piece =>
    by_cases point : c = '.'
    · subst point
      by_cases divided : radix.hasFraction
      · simp only [List.cons_append, fraction, divided, if_true, Prod.mk.injEq, List.cons.injEq,
          true_and] at read ⊢
        have digits := digits_stable (isDigit_of_separates radix) (Prod.ext read.1 read.2) look
        exact Prod.mk.inj digits
      · simp [fraction, divided] at read
    · simp [fraction, point] at read

private theorem sign_stable : Stable sign := by
  intro piece rest other read look
  cases piece with
  | nil =>
    cases other with
    | nil => rfl
    | cons c other =>
      by_cases plus : c = '+'
      · subst plus
        obtain ⟨text, rfl⟩ := List.head?_eq_some_iff.mp (head?_of_look look (by decide))
        simp [sign] at read
      · by_cases minus : c = '-'
        · subst minus
          obtain ⟨text, rfl⟩ := List.head?_eq_some_iff.mp (head?_of_look look (by decide))
          simp [sign] at read
        · simp [sign, plus, minus]
  | cons c piece =>
    by_cases plus : c = '+'
    · subst plus
      simp_all [sign]
    · by_cases minus : c = '-'
      · subst minus
        simp_all [sign]
      · simp [sign, plus, minus] at read

private theorem imaginaryUnit_stable : Stable imaginaryUnit := by
  intro piece rest other read look
  cases piece with
  | nil =>
    cases other with
    | nil => rfl
    | cons c other =>
      by_cases unit : c = 'i'
      · subst unit
        obtain ⟨text, rfl⟩ := List.head?_eq_some_iff.mp (head?_of_look look (by decide))
        simp [imaginaryUnit] at read
      · simp [imaginaryUnit, unit]
  | cons c piece =>
    by_cases unit : c = 'i'
    · subst unit
      simp_all [imaginaryUnit]
    · simp [imaginaryUnit, unit] at read

private theorem exponent_stable (radix : Radix) : Stable (exponent radix) := by
  intro piece rest other read look
  cases piece with
  | nil =>
    cases other with
    | nil => rfl
    | cons c other =>
      have unmarked : radix.isExponentMark c = false := by
        rcases look with same | separated
        · obtain ⟨text, rfl⟩ := List.head?_eq_some_iff.mp same.symm
          cases marked : radix.isExponentMark c with
          | false => rfl
          | true => simp [exponent, marked] at read
        · exact isExponentMark_of_separates radix (next_cons.mp separated)
      simp [exponent, unmarked]
  | cons c piece =>
    by_cases marked : radix.isExponentMark c
    · simp only [List.cons_append, exponent, marked, if_true, Prod.mk.injEq, List.cons.injEq,
        true_and] at read ⊢
      obtain ⟨run, after⟩ := read
      have whole := sign_append (piece ++ rest)
      generalize marks : sign (piece ++ rest) = signed at run after whole
      obtain ⟨mark, digits⟩ := signed
      -- The digits behind the sign are a run of their own, which ends at `rest`.
      obtain ⟨tail, ending⟩ : ∃ tail, digits.takeWhile isDecimalDigit = tail := ⟨_, rfl⟩
      have split : digits = tail ++ rest := by
        rw [← ending, ← after, List.takeWhile_append_dropWhile]
      simp only [ending] at run
      subst run split
      rw [List.append_assoc] at marks ⊢
      have digits := digits_stable (isDigit_of_separates .decimal) (Prod.ext ending after) look
      obtain ⟨run, after⟩ := Prod.mk.inj digits
      rw [sign_stable marks (look.append tail)]
      exact ⟨congrArg (mark ++ ·) run, after⟩
    · simp [exponent, marked] at read

theorem radixMark_of_ne {c : Char} (nonzero : c ≠ '0') (text : List Char) :
    radixMark (c :: text) = (.decimal, [], c :: text) := by
  simp [radixMark, nonzero]

theorem radixMark_zero {text : List Char} (next : Next (Radix.ofMark? · = none) text) :
    radixMark ('0' :: text) = (.decimal, [], '0' :: text) := by
  cases text with
  | nil => rfl
  | cons c text => simp [radixMark, next_cons.mp next]

private theorem radixMark_stable {radix : Radix} {mark body rest other : List Char}
    (read : radixMark (mark ++ (body ++ rest)) = (radix, mark, body ++ rest))
    (look : Look rest other) (nonempty : mark ++ body ≠ []) :
    radixMark (mark ++ (body ++ other)) = (radix, mark, body ++ other) := by
  cases mark with
  | nil =>
    cases body with
    | nil => simp at nonempty
    | cons c body =>
      simp only [List.nil_append, List.cons_append] at read ⊢
      by_cases zero : c = '0'
      · subst zero
        have unmarked : Next (Radix.ofMark? · = none) (body ++ rest) := by
          cases behind : body ++ rest with
          | nil => simp
          | cons d behind =>
            cases marks : Radix.ofMark? d with
            | none => simpa using marks
            | some radix => simp [behind, radixMark, marks] at read
        have decimal := read.symm.trans (radixMark_zero unmarked)
        rw [radixMark_zero ((look.append body).next unmarked fun c => ofMark?_of_separates)]
        simp_all
      · rw [radixMark_of_ne zero] at read ⊢
        simp_all
  | cons c mark =>
    unfold radixMark at read
    split at read
    · next d behind same =>
      cases found : Radix.ofMark? d with
      | none => simp [found] at read
      | some marked =>
        simp only [found, Prod.mk.injEq, List.cons.injEq] at read
        obtain ⟨rfl, ⟨rfl, rfl⟩, rfl⟩ := read
        simp [radixMark, found]
    · simp at read

namespace Numeral

private theorem text_append (numeral : Numeral) (rest : List Char) :
    numeral.text ++ rest = numeral.mark ++ (numeral.whole ++ (numeral.fraction ++
      (numeral.exponent ++ (numeral.unit ++ rest)))) := by
  simp [Numeral.text]

private theorem read_eq_iff {numeral : Numeral} {text rest : List Char} :
    read text = (numeral, rest) ↔ ∃ radix divided raised ended,
      radixMark text = (radix, numeral.mark, numeral.whole ++ divided) ∧
      ((numeral.whole ++ divided).takeWhile radix.isDigit,
        (numeral.whole ++ divided).dropWhile radix.isDigit) = (numeral.whole, divided) ∧
      Lexeme.fraction radix divided = (numeral.fraction, raised) ∧
      Lexeme.exponent radix raised = (numeral.exponent, ended) ∧
      imaginaryUnit ended = (numeral.unit, rest) := by
  constructor
  · intro read
    simp only [Numeral.read, Prod.mk.injEq] at read
    obtain ⟨rfl, after⟩ := read
    refine ⟨(radixMark text).1, _, _, _, ?_, ?_, rfl, rfl, Prod.ext rfl after⟩
    · simp only [List.takeWhile_append_dropWhile]
    · simp only [List.takeWhile_append_dropWhile]
  · rintro ⟨radix, divided, raised, ended, marked, whole, fraction, exponent, unit⟩
    obtain ⟨whole, after⟩ := Prod.mk.inj whole
    simp only [Numeral.read, marked, whole, after, fraction, exponent, unit]

theorem read_keeps {numeral : Numeral} {rest other : List Char}
    (first : read (numeral.text ++ rest) = (numeral, rest)) (nonempty : numeral.text ≠ [])
    (look : Look rest other) : read (numeral.text ++ other) = (numeral, other) := by
  obtain ⟨radix, divided, raised, ended, marked, whole, fraction, exponent, unit⟩ :=
    read_eq_iff.mp first
  have endedText := imaginaryUnit_append ended
  have raisedText := exponent_append radix raised
  have dividedText := fraction_append radix divided
  simp only [unit] at endedText
  simp only [exponent] at raisedText
  simp only [fraction] at dividedText
  subst endedText raisedText dividedText
  rw [text_append] at marked
  rw [read_eq_iff, text_append]
  have looks := look.append numeral.unit
  have raises := looks.append numeral.exponent
  have divides := raises.append numeral.fraction
  refine ⟨radix, _, _, _, ?_, digits_stable (isDigit_of_separates radix) whole divides,
    fraction_stable radix fraction raises, exponent_stable radix exponent looks,
    imaginaryUnit_stable unit look⟩
  let body := numeral.whole ++ (numeral.fraction ++ (numeral.exponent ++ numeral.unit))
  have marked : radixMark (numeral.mark ++ (body ++ rest)) = (radix, numeral.mark, body ++ rest) := by
    simpa [body] using marked
  have nonempty : numeral.mark ++ body ≠ [] := by simpa [body, Numeral.text] using nonempty
  simpa [body] using radixMark_stable marked look nonempty

theorem startsNumeral_keeps {numeral : Numeral} {rest : List Char}
    (starts : startsNumeral (numeral.text ++ rest))
    (first : read (numeral.text ++ rest) = (numeral, rest)) (other : List Char) :
    startsNumeral (numeral.text ++ other) := by
  have nonempty := text_read_ne_nil starts
  rw [first] at nonempty
  cases text : numeral.text with
  | nil => exact absurd text nonempty
  | cons c body =>
    simp only [text, List.cons_append] at starts first ⊢
    by_cases point : c = '.'
    · subst point
      cases body with
      | cons d body => exact starts
      | nil =>
        -- A point alone is no numeral: its fraction takes the digit behind it.
        cases rest with
        | nil => simp [startsNumeral] at starts
        | cons d rest =>
          have digit : Radix.decimal.isDigit d := by
            simp only [List.nil_append, startsNumeral] at starts
            simp [Radix.isDigit, isDecimalDigit, starts]
          have nodigit : Radix.decimal.isDigit '.' = false := by decide
          have same := congrArg (fun pair => pair.1.fraction) first
          have short := congrArg List.length text
          simp [read, radixMark, nodigit, Lexeme.fraction, Radix.hasFraction, digit] at same
          simp only [Numeral.text, ← same, List.length_append, List.length_cons,
            List.length_nil] at short
          omega
    · simpa [startsNumeral, point] using starts

end Numeral

theorem numeral?_keeps {lexeme : Lexeme} {rest other : List Char}
    (first : numeral? (lexeme.text ++ rest) = some (lexeme, rest))
    (look : Look rest other) : numeral? (lexeme.text ++ other) = some (lexeme, other) := by
  unfold numeral? at first
  split at first
  · next starts =>
    generalize read : Numeral.read (lexeme.text ++ rest) = result at first
    obtain ⟨numeral, after⟩ := result
    cases first
    have nonempty := Numeral.text_read_ne_nil starts
    rw [read] at nonempty
    have starts := Numeral.startsNumeral_keeps starts read other
    rw [numeral?, if_pos starts, Numeral.read_keeps read nonempty look]
  · simp at first

end FragmentBounds.Lexeme
