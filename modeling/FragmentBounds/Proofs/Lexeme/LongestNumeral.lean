import FragmentBounds.Proofs.Lexeme.Greedy
import FragmentBounds.Proofs.Token.ReadAt

/-! Numerals by longest match. A numeral is read piece by piece, each as long as
it goes, and no numeral is lost by it: no piece starts with a character that the
piece before it could have gone on with. -/
namespace FragmentBounds

namespace Lexeme

inductive FractionForm (digit : Char → Bool) : List Char → Prop
  | none : FractionForm digit []
  | point {digits : List Char} (all : ∀ c ∈ digits, digit c) : FractionForm digit ('.' :: digits)

inductive ExponentForm (mark : Char → Bool) : List Char → Prop
  | none : ExponentForm mark []
  | marked {c : Char} {sign digits : List Char} (marks : mark c) (signed : sign ∈ [[], ['+'], ['-']])
      (all : ∀ c ∈ digits, isDecimalDigit c) : ExponentForm mark (c :: (sign ++ digits))

/-- The numerals there are: decimal ones, which may start with a point, and
those with the mark of another radix. Only a decimal or a hexadecimal one may
have a fraction or an exponent. -/
inductive NumeralForm : Numeral → Prop
  | decimal {c : Char} {digits fraction exponent unit : List Char} (digit : c.isDigit)
      (all : ∀ c ∈ digits, isDecimalDigit c) (divided : FractionForm isDecimalDigit fraction)
      (raised : ExponentForm (fun c => c == 'e' || c == 'E') exponent) (ended : unit ∈ [[], ['i']]) :
      NumeralForm ⟨[], c :: digits, fraction, exponent, unit⟩
  | point {c : Char} {digits exponent unit : List Char} (digit : c.isDigit)
      (all : ∀ c ∈ digits, isDecimalDigit c)
      (raised : ExponentForm (fun c => c == 'e' || c == 'E') exponent) (ended : unit ∈ [[], ['i']]) :
      NumeralForm ⟨[], [], '.' :: c :: digits, exponent, unit⟩
  | hexadecimal {mark : Char} {digits fraction exponent unit : List Char} (marked : mark ∈ ['x', 'X'])
      (all : ∀ c ∈ digits, isHexDigit c || c == '_')
      (divided : FractionForm (fun c => isHexDigit c || c == '_') fraction)
      (raised : ExponentForm (fun c => c == 'p' || c == 'P') exponent) (ended : unit ∈ [[], ['i']]) :
      NumeralForm ⟨['0', mark], digits, fraction, exponent, unit⟩
  | other {mark : Char} {digits unit : List Char} (marked : mark ∈ ['o', 'O', 'b', 'B'])
      (all : ∀ c ∈ digits, isDecimalDigit c) (ended : unit ∈ [[], ['i']]) :
      NumeralForm ⟨['0', mark], digits, [], [], unit⟩

section Pieces

variable {radix : Radix}

theorem fraction_eq (radix : Radix) :
    fraction radix = headed (fun c => radix.hasFraction && c == '.') (run radix.isDigit) id := by
  funext text
  cases text with
  | nil => rfl
  | cons c text =>
    by_cases point : c = '.'
    · subst point
      cases divides : radix.hasFraction <;> simp [fraction, headed, run, divides]
    · simp [fraction, headed, point]

theorem exponent_eq (radix : Radix) : exponent radix =
    headed radix.isExponentMark (both sign (run isDecimalDigit)) (spellBoth id id) := by
  funext text
  cases text with
  | nil => rfl
  | cons c text => rfl

theorem imaginaryUnit_eq :
    imaginaryUnit = headed (· == 'i') (fun text => ((), text)) (fun _ : Unit => []) := by
  funext text
  cases text with
  | nil => rfl
  | cons c text =>
    by_cases unit : c = 'i'
    · subst unit
      rfl
    · simp [imaginaryUnit, headed, unit]

/-- The parts of a numeral behind the mark of its radix. -/
abbrev NumeralParts := ((List Char × List Char) × List Char) × List Char

def NumeralParts.text : NumeralParts → List Char :=
  spellBoth (spellBoth (spellBoth id id) id) id

def numeralParts (radix : Radix) : List Char → NumeralParts × List Char :=
  both (both (both (run radix.isDigit) (fraction radix)) (exponent radix)) imaginaryUnit

def Numeral.ofParts (mark : List Char) (parts : NumeralParts) : Numeral :=
  ⟨mark, parts.1.1.1, parts.1.1.2, parts.1.2, parts.2⟩

theorem Numeral.read_eq (text : List Char) : Numeral.read text =
    (.ofParts (radixMark text).2.1 (numeralParts (radixMark text).1 (radixMark text).2.2).1,
      (numeralParts (radixMark text).1 (radixMark text).2.2).2) := rfl

theorem Numeral.text_ofParts (mark : List Char) (parts : NumeralParts) :
    (Numeral.ofParts mark parts).text = mark ++ parts.text := by
  simp [Numeral.text, ofParts, NumeralParts.text, spellBoth]

/-- A fraction as it is read: in octal and binary there is none. -/
abbrev FractionPart (radix : Radix) : List Char → Prop :=
  Headed (fun c => radix.hasFraction && c == '.') id fun part => ∀ c ∈ part, radix.isDigit c

abbrev ExponentPart (radix : Radix) : List Char → Prop :=
  Headed radix.isExponentMark (spellBoth id id) fun part =>
    part.1 ∈ [[], ['+'], ['-']] ∧ ∀ c ∈ part.2, isDecimalDigit c

abbrev UnitPart : List Char → Prop := Headed (· == 'i') (fun _ : Unit => []) fun _ => True

def PartsForm (radix : Radix) (parts : NumeralParts) : Prop :=
  (((∀ c ∈ parts.1.1.1, radix.isDigit c) ∧ FractionPart radix parts.1.1.2) ∧
    ExponentPart radix parts.1.2) ∧ UnitPart parts.2

theorem isDigit_of_point (radix : Radix) : radix.isDigit '.' = false := by cases radix <;> decide

theorem isDigit_of_exponentMark {c : Char} (mark : radix.isExponentMark c) :
    radix.isDigit c = false ∧ c ≠ '.' := by
  cases radix with
  | decimal | hexadecimal =>
    simp only [Radix.isExponentMark, Bool.or_eq_true, beq_iff_eq] at mark
    rcases mark with rfl | rfl <;> decide
  | octal | binary => cases mark

theorem isDigit_of_unit (radix : Radix) :
    radix.isDigit 'i' = false ∧ radix.isExponentMark 'i' = false := by
  cases radix <;> decide

theorem greedy_divided (radix : Radix) : ∃ goesOn : List Char × List Char → Char → Prop,
    Greedy (both (run radix.isDigit) (fraction radix)) (spellBoth id id)
      (fun parts => (∀ c ∈ parts.1, radix.isDigit c) ∧ FractionPart radix parts.2) goesOn ∧
    ∀ parts c, goesOn parts c → radix.isDigit c ∨ c = '.' := by
  have fraction : Greedy (fraction radix) id (FractionPart radix) _ :=
    fraction_eq radix ▸ (greedy_run radix.isDigit).headed fun c => radix.hasFraction && c == '.'
  have divided := (greedy_run radix.isDigit).both fraction fun _ headed => headed.starts.imp (by
    intro c point digit
    rw [Bool.and_eq_true, beq_iff_eq] at point
    rw [point.2, isDigit_of_point radix] at digit
    cases digit)
  refine ⟨_, divided, fun parts c further => ?_⟩
  rcases further with further | ⟨-, digit⟩
  · rcases further.or with point | ⟨-, digit⟩
    · exact .inr (beq_iff_eq.mp (Bool.and_eq_true_iff.mp point).2)
    · exact .inl digit
  · exact .inl digit

theorem greedy_exponent (radix : Radix) : ∃ goesOn : List Char → Char → Prop,
    Greedy (exponent radix) id (ExponentPart radix) goesOn ∧
    ∀ part c, goesOn part c → radix.isExponentMark c ∨ isDecimalDigit c ∨ c = '+' ∨ c = '-' := by
  have digits := greedy_sign.both (greedy_run isDecimalDigit) fun {part next} _ all => by
    cases next with
    | nil => exact next_nil _
    | cons c next =>
      rw [id_eq, next_cons]
      rintro ⟨-, rfl | rfl⟩ <;> simp [isDecimalDigit] at all
  refine ⟨_, exponent_eq radix ▸ digits.headed radix.isExponentMark, fun part c further => ?_⟩
  rcases further.or with marks | ⟨part, digit | ⟨-, -, signs⟩⟩
  · exact .inl marks
  · exact .inr (.inl digit)
  · exact .inr (.inr signs)

theorem greedy_numeralParts (radix : Radix) : ∃ goesOn : NumeralParts → Char → Prop,
    Greedy (numeralParts radix) NumeralParts.text (PartsForm radix) goesOn := by
  have unit : Greedy imaginaryUnit id _ _ := imaginaryUnit_eq ▸ greedy_nothing.headed (· == 'i')
  obtain ⟨_, divided, digitOrPoint⟩ := greedy_divided radix
  obtain ⟨_, exponent, digitOrSign⟩ := greedy_exponent radix
  have raised := divided.both exponent fun _ headed => headed.starts.imp (by
    intro c mark further
    obtain ⟨digitless, other⟩ := isDigit_of_exponentMark mark
    rcases digitOrPoint _ c further with digit | point
    · simp [digitless] at digit
    · exact other point)
  refine ⟨_, raised.both unit fun _ headed => headed.starts.imp ?_⟩
  intro c same further
  obtain rfl := beq_iff_eq.mp same
  obtain ⟨digitless, unmarked⟩ := isDigit_of_unit radix
  rcases further with further | ⟨-, further⟩
  · rcases digitOrSign _ _ further with mark | digit | sign | sign
    · simp [unmarked] at mark
    · cases digit
    · cases sign
    · cases sign
  · rcases digitOrPoint _ _ further with digit | point
    · simp [digitless] at digit
    · cases point

end Pieces

section Forms

variable {radix : Radix} {parts : NumeralParts} {numeral : Numeral} {text : List Char}

theorem fractionPart_iff : FractionPart radix text ↔
    FractionForm radix.isDigit text ∧ (text ≠ [] → radix.hasFraction) := by
  constructor
  · intro part
    cases part with
    | none => exact ⟨.none, nofun⟩
    | head starts all =>
      obtain ⟨divides, point⟩ := Bool.and_eq_true_iff.mp starts
      obtain rfl := beq_iff_eq.mp point
      exact ⟨.point all, fun _ => divides⟩
  · rintro ⟨form, divides⟩
    cases form with
    | none => exact .none
    | point all => exact .head (by simp [divides]) all

theorem exponentPart_iff : ExponentPart radix text ↔ ExponentForm radix.isExponentMark text := by
  constructor
  · intro part
    cases part with
    | none => exact .none
    | head starts formed => exact .marked starts formed.1 formed.2
  · intro form
    cases form with
    | none => exact .none
    | @marked c sign digits marks signed all =>
      have part : ExponentPart radix (c :: spellBoth id id (sign, digits)) :=
        .head marks ⟨signed, all⟩
      exact part

theorem unitPart_iff : UnitPart text ↔ text ∈ [[], ['i']] := by
  constructor
  · intro part
    cases part with
    | none => simp
    | head starts _ => simp [beq_iff_eq.mp starts]
  · intro member
    simp only [List.mem_cons, List.not_mem_nil, or_false] at member
    rcases member with rfl | rfl
    · exact .none
    · exact @Headed.head Unit _ _ _ 'i' () rfl trivial

theorem partsForm_iff : PartsForm radix parts ↔ (∀ c ∈ parts.1.1.1, radix.isDigit c) ∧
    (FractionForm radix.isDigit parts.1.1.2 ∧ (parts.1.1.2 ≠ [] → radix.hasFraction)) ∧
    ExponentForm radix.isExponentMark parts.1.2 ∧ parts.2 ∈ [[], ['i']] := by
  rw [PartsForm, fractionPart_iff, exponentPart_iff, unitPart_iff, and_assoc, and_assoc]

inductive Marks : Radix → List Char → Prop
  | none : Marks .decimal []
  | letter {c : Char} {radix : Radix} (marked : Radix.ofMark? c = some radix) : Marks radix ['0', c]

theorem letters_of_ofMark? {c : Char} (marked : Radix.ofMark? c = some radix) :
    radix = .hexadecimal ∧ c ∈ ['x', 'X'] ∨
      (radix = .octal ∨ radix = .binary) ∧ c ∈ ['o', 'O', 'b', 'B'] := by
  unfold Radix.ofMark? at marked
  split at marked
  · cases marked
    simp_all
  · split at marked
    · next octal =>
      cases marked
      rcases Bool.or_eq_true_iff.mp octal with same | same <;> simp [beq_iff_eq.mp same]
    · split at marked <;> simp_all

/-- Without a mark the parts of a numeral start with a digit, or with a point and a digit. -/
def Leads (parts : NumeralParts) : Prop :=
  (∃ c digits, c.isDigit ∧ parts.1.1.1 = c :: digits) ∨
    parts.1.1.1 = [] ∧ ∃ c digits, c.isDigit ∧ parts.1.1.2 = '.' :: c :: digits

theorem isDecimalDigit_of_isDigit {c : Char} (digit : c.isDigit) : isDecimalDigit c := by
  simp [isDecimalDigit, digit]

theorem NumeralForm.exists_parts (form : NumeralForm numeral) : ∃ radix parts,
    numeral = .ofParts numeral.mark parts ∧ Marks radix numeral.mark ∧ PartsForm radix parts ∧
      (numeral.mark = [] → Leads parts) := by
  cases form with
  | @decimal c digits fraction exponent unit digit all divided raised ended =>
    refine ⟨.decimal, (((c :: digits, fraction), exponent), unit), rfl, .none, ?_, fun _ => ?_⟩
    · refine partsForm_iff.mpr ⟨?_, ⟨divided, fun _ => rfl⟩, raised, ended⟩
      exact List.forall_mem_cons.mpr ⟨isDecimalDigit_of_isDigit digit, all⟩
    · exact .inl ⟨c, digits, digit, rfl⟩
  | @point c digits exponent unit digit all raised ended =>
    refine ⟨.decimal, ((([], '.' :: c :: digits), exponent), unit), rfl, .none, ?_, fun _ => ?_⟩
    · refine partsForm_iff.mpr ⟨nofun, ⟨.point ?_, fun _ => rfl⟩, raised, ended⟩
      exact List.forall_mem_cons.mpr ⟨isDecimalDigit_of_isDigit digit, all⟩
    · exact .inr ⟨rfl, c, digits, digit, rfl⟩
  | @hexadecimal mark digits fraction exponent unit marked all divided raised ended =>
    have radix : Radix.ofMark? mark = some .hexadecimal := by
      simp only [List.mem_cons, List.not_mem_nil, or_false] at marked
      rcases marked with rfl | rfl <;> rfl
    refine ⟨.hexadecimal, (((digits, fraction), exponent), unit), rfl, .letter radix, ?_, nofun⟩
    exact partsForm_iff.mpr ⟨all, ⟨divided, fun _ => rfl⟩, raised, ended⟩
  | @other mark digits unit marked all ended =>
    have radix : Radix.ofMark? mark = some .octal ∨ Radix.ofMark? mark = some .binary := by
      simp only [List.mem_cons, List.not_mem_nil, or_false] at marked
      rcases marked with rfl | rfl | rfl | rfl <;> decide
    rcases radix with radix | radix
    · refine ⟨.octal, (((digits, []), []), unit), rfl, .letter radix, ?_, nofun⟩
      exact partsForm_iff.mpr ⟨all, ⟨.none, nofun⟩, .none, ended⟩
    · refine ⟨.binary, (((digits, []), []), unit), rfl, .letter radix, ?_, nofun⟩
      exact partsForm_iff.mpr ⟨all, ⟨.none, nofun⟩, .none, ended⟩

theorem numeralForm_of_parts {mark : List Char} (marks : Marks radix mark)
    (formed : PartsForm radix parts) (leads : mark = [] → Leads parts) :
    NumeralForm (.ofParts mark parts) := by
  obtain ⟨⟨⟨whole, fraction⟩, exponent⟩, unit⟩ := parts
  obtain ⟨all, ⟨divided, divides⟩, raised, ended⟩ := partsForm_iff.mp formed
  dsimp only at all divided divides raised ended
  cases marks with
  | none =>
    rcases leads rfl with ⟨c, digits, digit, rfl⟩ | ⟨rfl, c, digits, digit, rfl⟩
    · exact .decimal digit (List.forall_mem_cons.mp all).2 divided raised ended
    · cases divided with
      | point all => exact .point digit (List.forall_mem_cons.mp all).2 raised ended
  | letter marked =>
    rcases letters_of_ofMark? marked with ⟨rfl, letter⟩ | ⟨rfl | rfl, letter⟩
    · exact .hexadecimal letter all divided raised ended
    all_goals
      have whole : fraction = [] := by simpa [Radix.hasFraction] using divides
      subst whole
      cases raised with
      | none => exact .other letter all ended
      | marked marks => cases marks

theorem ofMark?_of_isDecimalDigit {c : Char} (digit : isDecimalDigit c) :
    Radix.ofMark? c = none := by
  cases marked : Radix.ofMark? c with
  | none => rfl
  | some radix =>
    rcases letters_of_ofMark? marked with ⟨-, letter⟩ | ⟨-, letter⟩ <;>
      simp only [List.mem_cons, List.not_mem_nil, or_false] at letter
    · rcases letter with rfl | rfl <;> cases digit
    · rcases letter with rfl | rfl | rfl | rfl <;> cases digit

theorem unmarked_of_leads (formed : PartsForm .decimal parts) (leads : Leads parts) :
    ∃ c tail, parts.text = c :: tail ∧ (c = '0' → Next (Radix.ofMark? · = none) tail) := by
  obtain ⟨⟨⟨whole, fraction⟩, exponent⟩, unit⟩ := parts
  obtain ⟨⟨⟨all, divided⟩, raised⟩, ended⟩ := formed
  rcases leads with ⟨c, digits, -, rfl⟩ | ⟨rfl, c, digits, -, rfl⟩
  · refine ⟨c, digits ++ fraction ++ exponent ++ unit, rfl, fun _ => ?_⟩
    have point : Next (Radix.ofMark? · = none) fraction := divided.starts.imp fun c point => by
      obtain rfl := beq_iff_eq.mp (Bool.and_eq_true_iff.mp point).2
      rfl
    have mark : Next (Radix.ofMark? · = none) exponent := raised.starts.imp fun c mark => by
      simp only [Radix.isExponentMark, Bool.or_eq_true, beq_iff_eq] at mark
      rcases mark with rfl | rfl <;> rfl
    have suffix : Next (Radix.ofMark? · = none) unit := ended.starts.imp fun c same => by
      rw [beq_iff_eq.mp same]
      rfl
    have digit : Next (Radix.ofMark? · = none) digits := fun c first =>
      ofMark?_of_isDecimalDigit (all c (List.mem_cons_of_mem _ (List.mem_of_mem_head? first)))
    exact ((digit.append point).append mark).append suffix
  · exact ⟨'.', c :: digits ++ exponent ++ unit, rfl, nofun⟩

theorem radixMark_of_leads (formed : PartsForm .decimal parts) (leads : Leads parts)
    (more : List Char) : radixMark (parts.text ++ more) = (.decimal, [], parts.text ++ more) ∨
      parts.text.length < (radixMark (parts.text ++ more)).2.1.length := by
  obtain ⟨c, tail, text, unmarked⟩ := unmarked_of_leads formed leads
  rw [text, List.cons_append]
  by_cases zero : c = '0'
  · subst zero
    by_cases next : Next (Radix.ofMark? · = none) (tail ++ more)
    · exact .inl (radixMark_zero next)
    · cases tail with
      | cons d tail => exact absurd (next_cons.mpr (next_cons.mp (unmarked rfl))) next
      | nil =>
        cases more with
        | nil => exact absurd (next_nil _) next
        | cons d more =>
          obtain ⟨radix, marked⟩ := Option.ne_none_iff_exists'.mp fun none => next (next_cons.mpr none)
          simp [radixMark, marked]
  · exact .inl (radixMark_of_ne zero _)

theorem radixMark_of_letter {c : Char} (marked : Radix.ofMark? c = some radix) (text : List Char) :
    radixMark ('0' :: c :: text) = (radix, ['0', c], text) := by
  simp [radixMark, marked]

/-- A numeral is read as it is, or else as a longer one. -/
theorem NumeralForm.read_or_longer (form : NumeralForm numeral) (more : List Char) :
    Numeral.read (numeral.text ++ more) = (numeral, more) ∨
      numeral.text.length < (Numeral.read (numeral.text ++ more)).1.text.length := by
  obtain ⟨radix, parts, same, marks, formed, leads⟩ := form.exists_parts
  have read (marked : radixMark (numeral.text ++ more) = (radix, numeral.mark, parts.text ++ more)) :
      Numeral.read (numeral.text ++ more) = (numeral, more) ∨
        numeral.text.length < (Numeral.read (numeral.text ++ more)).1.text.length := by
    obtain ⟨_, greedy⟩ := greedy_numeralParts radix
    rw [Numeral.read_eq, marked]
    rcases greedy.read_or_longer formed more with exact | longer
    · exact .inl (by rw [exact, ← same])
    · rw [same, Numeral.text_ofParts, Numeral.text_ofParts, List.length_append, List.length_append]
      exact .inr (Nat.add_lt_add_left longer _)
  have text : numeral.text = numeral.mark ++ parts.text := by
    rw [same, Numeral.text_ofParts]
    rfl
  generalize numeral.mark = mark at marks leads read text
  rw [text] at read ⊢
  cases marks with
  | letter marked => exact read (radixMark_of_letter marked _)
  | none =>
    rcases radixMark_of_leads formed (leads rfl) more with marked | longer
    · exact read marked
    · refine .inr (Nat.lt_of_lt_of_le longer ?_)
      rw [Numeral.read_eq, Numeral.text_ofParts, List.length_append]
      exact Nat.le_add_right _ _

theorem leads_of_starts (starts : startsNumeral text) : Leads (numeralParts .decimal text).1 := by
  have leading {c : Char} {text : List Char} (digit : c.isDigit) :
      (c :: text).takeWhile Radix.decimal.isDigit = c :: text.takeWhile Radix.decimal.isDigit :=
    List.takeWhile_cons_of_pos (isDecimalDigit_of_isDigit digit)
  unfold startsNumeral at starts
  split at starts
  · cases starts
  · next c text => exact .inr ⟨rfl, c, _, starts, congrArg (List.cons '.') (leading starts)⟩
  · next c text _ => exact .inl ⟨c, _, starts, leading starts⟩

theorem numeralForm_read (starts : startsNumeral text) : NumeralForm (Numeral.read text).1 := by
  have formed (radix : Radix) (behind : List Char) : PartsForm radix (numeralParts radix behind).1 := by
    obtain ⟨_, greedy⟩ := greedy_numeralParts radix
    exact greedy.forms behind
  have decimal (unmarked : radixMark text = (.decimal, [], text)) :
      NumeralForm (Numeral.read text).1 := by
    rw [Numeral.read_eq, unmarked]
    exact numeralForm_of_parts .none (formed .decimal text) fun _ => leads_of_starts starts
  unfold radixMark at decimal
  split at decimal
  · next c behind =>
    cases marked : Radix.ofMark? c with
    | none =>
      rw [marked] at decimal
      exact decimal rfl
    | some radix =>
      rw [Numeral.read_eq, radixMark_of_letter marked]
      exact numeralForm_of_parts (.letter marked) (formed radix behind) nofun
  · exact decimal rfl

end Forms

end Lexeme

open Lexeme

/-- Where a numeral starts, the longest that there is gets read: every other one
that the text there begins with is shorter. -/
theorem readAt_longest_numeral {source : String} {offset : Nat} {before rest : List Char}
    (here : Text.splitBytes? offset source.toList = some (before, rest))
    (starts : ∃ c tail, c.isDigit ∧ (rest = c :: tail ∨ rest = '.' :: c :: tail)) :
    ∃ numeral, ReadAt source offset ⟨.literal numeral.kind, numeral.text⟩ ∧ NumeralForm numeral ∧
      numeral.text <+: rest ∧ ∀ other, NumeralForm other → other.text <+: rest →
        other = numeral ∨ other.text.length < numeral.text.length := by
  have begins : startsNumeral rest := by
    obtain ⟨c, tail, digit, rfl | rfl⟩ := starts
    · by_cases point : c = '.'
      · subst point
        cases digit
      · simp [startsNumeral, digit, point]
    · simpa [startsNumeral] using digit
  have first := Checked.first?_of_startsNumeral begins
  have whole := Numeral.text_read rest
  refine ⟨_, readAt_of_first? here first, numeralForm_read begins, ⟨_, whole⟩, ?_⟩
  rintro other form ⟨more, rfl⟩
  rcases form.read_or_longer more with exact | longer
  · exact .inl (by rw [exact])
  · exact .inr longer

/-- In a hexadecimal numeral the mark of a decimal exponent is a digit, and no
sign goes on with it. -/
theorem readAt_longest_numeral_hexadecimal :
    Text.splitBytes? 1 "+0x1e+2".toList = some (['+'], "0x1e+2".toList) ∧
      (∃ c tail, c.isDigit ∧ ("0x1e+2".toList = c :: tail ∨ "0x1e+2".toList = '.' :: c :: tail)) ∧
      ∃ numeral : Numeral, ReadAt "+0x1e+2" 1 ⟨.literal .int, numeral.text⟩ ∧
        Text.byteSize numeral.text = 4 ∧ ∀ other, NumeralForm other →
          other.text <+: "0x1e+2".toList → other = numeral ∨ other.text.length < numeral.text.length := by
  have here : Text.splitBytes? 1 "+0x1e+2".toList = some (['+'], "0x1e+2".toList) := by
    decide +kernel
  have starts : ∃ c tail, c.isDigit ∧
      ("0x1e+2".toList = c :: tail ∨ "0x1e+2".toList = '.' :: c :: tail) :=
    ⟨'0', "x1e+2".toList, by decide, .inl (by decide +kernel)⟩
  obtain ⟨numeral, read, -, -, longest⟩ := readAt_longest_numeral here starts
  have piece : (Scanner.ofText "+0x1e+2".toList 1).next.1 = ⟨.literal .int, 4⟩ := by decide +kernel
  have kind : numeral.kind = .int ∧ Text.byteSize numeral.text = 4 := by
    simpa [Lexeme.piece, Lexeme.byteSize] using read.piece.symm.trans piece
  rw [kind.1] at read
  exact ⟨here, starts, numeral, read, kind.2, longest⟩

end FragmentBounds
