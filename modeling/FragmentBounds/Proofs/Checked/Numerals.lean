import FragmentBounds.Proofs.Checked.Symbols

/-! Numerals as they are scanned: piece by piece, each as long as it goes. -/
namespace FragmentBounds.Checked

open Lexeme

variable {source : String} {cursor first : Cursor} {text rest : List Char} {c : Char}

section Plain

theorem plain_isHexDigit : Plain isHexDigit :=
  plain_or (plain_or plain_isDigit (plain_range (by decide))) (plain_range (by decide))

theorem plain_isOctalDigit : Plain isOctalDigit := plain_range (by decide)

private theorem plain_radix (radix : Radix) : Plain radix.isDigit := by
  have decimal : Plain isDecimalDigit := plain_or plain_isDigit (plain_beq (by decide))
  cases radix with
  | hexadecimal => exact plain_or plain_isHexDigit (plain_beq (by decide))
  | decimal | octal | binary => exact decimal

private theorem plain_mark {radix : Radix} (marked : Radix.ofMark? c = some radix) :
    c.toNat < 128 := by
  have either {a b : Char} (first : a.toNat < 128) (second : b.toNat < 128) :
      Plain fun c => c == a || c == b := plain_or (plain_beq first) (plain_beq second)
  unfold Radix.ofMark? at marked
  split at marked
  · next same => exact either (by decide) (by decide) c same
  · split at marked
    · next same => exact either (by decide) (by decide) c same
    · split at marked
      · next same => exact either (by decide) (by decide) c same
      · cases marked

private theorem plain_exponentMark (radix : Radix) : Plain radix.isExponentMark := by
  cases radix with
  | decimal | hexadecimal => exact plain_or (plain_beq (by decide)) (plain_beq (by decide))
  | octal | binary => exact fun c marked => by cases marked

end Plain

theorem first?_of_startsNumeral (starts : startsNumeral text) :
    first? text = some (⟨.literal (Numeral.read text).1.kind, (Numeral.read text).1.text⟩,
      (Numeral.read text).2) := by
  have found : numeral? text = some (⟨.literal (Numeral.read text).1.kind,
      (Numeral.read text).1.text⟩, (Numeral.read text).2) := by
    rw [numeral?, if_pos starts]
  cases text with
  | nil => cases starts
  | cons c text =>
    have leading : c.isDigit || c == '.' := by
      unfold startsNumeral at starts
      split at starts <;> simp_all
    have plain : Plain fun c => c.isDigit || c == '.' := plain_or plain_isDigit (plain_beq (by decide))
    have all : ∀ n < 128, (Char.ofNat n).isDigit || Char.ofNat n == '.' →
        Char.ofNat n ≠ '\n' ∧ Char.ofNat n ≠ '\r' ∧ isBlank (Char.ofNat n) = false ∧
          Char.ofNat n ≠ '/' ∧ isLetter (Char.ofNat n) = false := by decide +kernel
    obtain ⟨feed, ret, blank, slash, letter⟩ := ascii_forall (P := fun c => c.isDigit || c == '.' →
      c ≠ '\n' ∧ c ≠ '\r' ∧ isBlank c = false ∧ c ≠ '/' ∧ isLetter c = false) all c
      (plain c leading) leading
    refine first?_eq_some.mpr (.numeral (trivia?_eq_none.mpr ?_) (word?_eq_none.mpr letter) found)
    exact ⟨feed, ret, blank, fun same => absurd same slash⟩

theorem returns_digits (radix : Radix) (here : Faces source cursor rest) :
    Returns (digits radix cursor) fun next => Faces source next (rest.dropWhile radix.isDigit) := by
  have passed := here.eatWhile (plain_radix radix)
  exact passed.returns_moved passed

theorem returns_exponent (radix : Radix) (here : Faces source cursor rest) :
    Returns (exponent radix cursor) fun result =>
      result.1 = !(Lexeme.exponent radix rest).1.isEmpty ∧
        Faces source result.2 (Lexeme.exponent radix rest).2 := by
  have seen := here.ascii_current (plain_exponentMark radix) (by cases radix <;> rfl)
  rw [exponent, seen]
  cases rest with
  | nil => exact .pure ⟨rfl, here⟩
  | cons c rest =>
    rw [List.head?_cons, Option.any_some, Lexeme.exponent]
    cases marked : radix.isExponentMark c with
    | false =>
      rw [if_neg (by simp), if_neg (by simp)]
      exact .pure ⟨rfl, here⟩
    | true =>
      have low := plain_exponentMark radix c marked
      have advanced := here.advance low
      rw [if_pos rfl, if_pos rfl]
      apply advanced.moves
      have signed := advanced.ascii_current (plain_or (plain_beq (a := '+') (by decide))
        (plain_beq (a := '-') (by decide))) rfl
      rw [signed]
      cases sign : rest.head?.any fun c => c == '+' || c == '-' with
      | true =>
        obtain ⟨d, after, rfl, same⟩ : ∃ d after, rest = d :: after ∧ (d = '+' ∨ d = '-') := by
          cases rest with
          | nil => cases sign
          | cons d after => exact ⟨d, after, rfl, by simpa using sign⟩
        have passed := advanced.advance (show d.toNat < 128 by rcases same with rfl | rfl <;> decide)
        rw [if_pos rfl]
        apply passed.moves
        refine (returns_digits .decimal passed).bind fun next ended => .pure ⟨rfl, ?_⟩
        rcases same with rfl | rfl <;> exact ended
      | false =>
        rw [if_neg (by simp)]
        refine (returns_digits .decimal advanced).bind fun next ended => .pure ⟨rfl, ?_⟩
        have unsigned : Lexeme.sign rest = ([], rest) := by
          unfold Lexeme.sign
          split <;> simp_all
        rw [unsigned]
        exact ended

def behindWhole (text : List Char) : List Char :=
  (Lexeme.radixMark text).2.2.dropWhile (Lexeme.radixMark text).1.isDigit

theorem returns_suffix {radix : Radix} {divided : List Char} (begun : Faces source first text)
    (starts : startsNumeral text) (mark : (Lexeme.radixMark text).1 = radix)
    (here : Faces source cursor rest)
    (divides : Lexeme.fraction radix (behindWhole text) = (divided, rest)) :
    Returns (suffix first.pos radix (!divided.isEmpty) cursor) (Scanned source text) := by
  have found := first?_of_startsNumeral starts
  have read : Numeral.read text = (⟨(Lexeme.radixMark text).2.1,
      (Lexeme.radixMark text).2.2.takeWhile radix.isDigit, divided, (Lexeme.exponent radix rest).1,
      (imaginaryUnit (Lexeme.exponent radix rest).2).1⟩,
      (imaginaryUnit (Lexeme.exponent radix rest).2).2) := by
    rw [behindWhole, mark] at divides
    simp only [Numeral.read, mark, divides]
  rw [read] at found
  apply (returns_exponent radix here).bind
  rintro ⟨raised, next⟩ ⟨same, ended⟩
  dsimp only at same ended ⊢
  subst same
  rcases ended.look 'i' rfl with ⟨after, unit, sees⟩ | ⟨blind, other⟩
  · rw [if_pos sees]
    rw [unit] at found ended
    exact returns_single begun found ended (by decide)
  · rw [if_neg blind]
    have unitless : imaginaryUnit (Lexeme.exponent radix rest).2 =
        ([], (Lexeme.exponent radix rest).2) := by
      unfold imaginaryUnit
      split
      · next same => exact absurd (by rw [same]; rfl) other
      · rfl
    have kind (mark whole : List Char) :
        Numeral.kind ⟨mark, whole, divided, (Lexeme.exponent radix rest).1, []⟩ =
          if !divided.isEmpty || !(Lexeme.exponent radix rest).1.isEmpty then .float else .int := by
      simp [Numeral.kind]
    rw [unitless] at found
    simp only [kind] at found
    exact returns_piece begun found ended

theorem returns_fraction {radix : Radix} (begun : Faces source first text)
    (starts : startsNumeral text) (mark : (Lexeme.radixMark text).1 = radix)
    (divides : radix.hasFraction) (here : Faces source cursor ('.' :: rest))
    (point : behindWhole text = '.' :: rest) :
    Returns (fraction first.pos radix cursor) (Scanned source text) := by
  have advanced := here.advance (by decide)
  apply advanced.moves
  apply (returns_digits radix advanced).bind
  intro next ended
  have split : Lexeme.fraction radix (behindWhole text) =
      ('.' :: rest.takeWhile radix.isDigit, rest.dropWhile radix.isDigit) := by
    rw [point, Lexeme.fraction, if_pos divides]
  exact returns_suffix begun starts mark ended split

private theorem radixAt?_eq (here : Faces source cursor rest) :
    radixAt? cursor = rest.head?.bind Radix.ofMark? := by
  cases rest with
  | nil =>
    rw [radixAt?, here.current_nil]
    rfl
  | cons d rest =>
    rw [List.head?_cons, Option.bind_some, radixAt?]
    rcases Nat.lt_or_ge d.toNat 128 with low | high
    · rw [here.current_of_ascii low, if_pos (toUInt8_lt low), ofNat_toUInt8 low]
    · have large : ¬cursor.current < 128 :=
        UInt8.not_lt.mpr (le_of_mem_encode high _ here.current_mem)
      have differs {a : Char} (low : a.toNat < 128) : d ≠ a := fun same => by
        rw [same] at high
        omega
      rw [if_neg large, Radix.ofMark?]
      simp [differs (show 'x'.toNat < 128 by decide), differs (show 'X'.toNat < 128 by decide),
        differs (show 'o'.toNat < 128 by decide), differs (show 'O'.toNat < 128 by decide),
        differs (show 'b'.toNat < 128 by decide), differs (show 'B'.toNat < 128 by decide)]

theorem returns_radixMark (digit : c.isDigit) (here : Faces source cursor rest) :
    Returns (radixMark c.toUInt8 cursor) fun result =>
      result.1 = (Lexeme.radixMark (c :: rest)).1 ∧ ∃ after, Faces source result.2 after ∧
        after.dropWhile result.1.isDigit = (Lexeme.radixMark (c :: rest)).2.2.dropWhile result.1.isDigit := by
  have leading : Radix.decimal.isDigit c := by
    change c.isDigit || c == '_'
    rw [digit, Bool.true_or]
  have passed : (c :: rest).dropWhile Radix.decimal.isDigit = rest.dropWhile Radix.decimal.isDigit :=
    List.dropWhile_cons_of_pos leading
  by_cases zero : c = '0'
  · subst zero
    rw [radixMark, if_pos (by decide), radixAt?_eq here]
    cases rest with
    | nil => exact .pure ⟨rfl, [], here, passed.symm⟩
    | cons d rest =>
      rw [List.head?_cons, Option.bind_some, Lexeme.radixMark]
      cases marked : Radix.ofMark? d with
      | none => exact .pure ⟨rfl, _, here, passed.symm⟩
      | some radix =>
        have low := plain_mark marked
        apply (here.advance low).moves
        exact .pure ⟨rfl, rest, here.advance low, rfl⟩
  · have differs : (c.toUInt8 == '0'.toUInt8) = false := by
      rw [beq_toUInt8 (by decide), ascii_toUInt8 _ (plain_isDigit c digit)]
      exact beq_eq_false_iff_ne.mpr zero
    have unmarked : Lexeme.radixMark (c :: rest) = (.decimal, [], c :: rest) := by
      unfold Lexeme.radixMark
      split
      · next same => exact absurd (List.cons.inj same).1 zero
      · rfl
    rw [radixMark, differs, if_neg (by simp), unmarked]
    exact .pure ⟨rfl, rest, here, passed.symm⟩

theorem returns_numeral (begun : Faces source cursor (c :: rest)) (digit : c.isDigit) :
    Returns (numeral cursor.pos cursor) (Scanned source (c :: rest)) := by
  have low := plain_isDigit c digit
  have starts : startsNumeral (c :: rest) := by
    unfold startsNumeral
    split <;> simp_all
  have advanced := begun.advance low
  rw [numeral, begun.current_of_ascii low]
  apply advanced.moves
  apply (returns_radixMark digit advanced).bind
  rintro ⟨radix, behind⟩ ⟨mark, after, faces, digits⟩
  dsimp only at mark faces digits ⊢
  apply (returns_digits radix faces).bind
  intro next ended
  have whole : behindWhole (c :: rest) = after.dropWhile radix.isDigit := by
    rw [behindWhole, digits, mark]
  rw [← whole] at ended
  rcases ended.look '.' rfl with ⟨inside, point, sees⟩ | ⟨blind, other⟩
  · cases divides : radix.hasFraction with
    | true =>
      rw [if_pos (by rw [sees]; rfl)]
      rw [point] at ended
      exact returns_fraction begun starts mark.symm divides ended point
    | false =>
      rw [if_neg (by simp)]
      have undivided : Lexeme.fraction radix (behindWhole (c :: rest)) = ([], behindWhole (c :: rest)) := by
        rw [point, Lexeme.fraction, if_neg (by simp [divides])]
      exact returns_suffix begun starts mark.symm ended undivided
  · rw [if_neg (by simp [blind])]
    have undivided : Lexeme.fraction radix (behindWhole (c :: rest)) = ([], behindWhole (c :: rest)) := by
      unfold Lexeme.fraction
      split
      · next same => exact absurd (by rw [same]; rfl) other
      · rfl
    exact returns_suffix begun starts mark.symm ended undivided

section Dot

private theorem first?_of_dot {found : Lexeme × List Char}
    (digitless : rest.head?.any Char.isDigit = false) (symbol : symbol? ('.' :: rest) = some found) :
    first? ('.' :: rest) = some found := by
  apply first?_of_symbol? symbol
  · intro same
    cases same
  · intro _ d next
    have head : rest.head? = some d := next
    rwa [head, Option.any_some] at digitless

private theorem symbol?_of_dot (other : ∀ after, rest ≠ '.' :: '.' :: after) :
    symbol? ('.' :: rest) = some (⟨.dot, ['.']⟩, rest) := by
  refine symbol?_eq_some.mpr ⟨rfl, by decide, fun long tag found within => ?_⟩
  have all : ∀ entry ∈ spellings, entry.1.head? = some '.' →
      entry.1 = ['.'] ∨ entry.1 = ['.', '.', '.'] := by decide
  obtain ⟨after, whole⟩ := within
  have listed := mem_spellings_of_ofSpelling? found
  have size := (length_spelling listed).1
  cases long with
  | nil => cases size
  | cons c long =>
    obtain ⟨rfl, behind⟩ := List.cons.inj whole
    rcases all _ listed rfl with same | same
    · obtain ⟨-, rfl⟩ := List.cons.inj same
      exact Nat.le_refl 1
    · obtain ⟨-, rfl⟩ := List.cons.inj same
      exact absurd behind.symm (other after)

theorem returns_dot (begun : Faces source cursor ('.' :: rest)) :
    Returns (dot cursor.pos cursor) (Scanned source ('.' :: rest)) := by
  have low : '.'.toNat < 128 := by decide
  have advanced := begun.advance low
  have seen : cursor.peek 1 = cursor.advance.current := begun.peek_succ low 0 advanced
  rw [dot, seen, advanced.ascii_current plain_isDigit rfl]
  cases digit : rest.head?.any Char.isDigit with
  | true =>
    rw [if_pos rfl]
    have starts : startsNumeral ('.' :: rest) := by
      cases rest with
      | nil => cases digit
      | cons d rest => exact digit
    exact returns_fraction begun starts rfl rfl begun rfl
  | false =>
    rw [if_neg (by simp)]
    have single (other : ∀ after, rest ≠ '.' :: '.' :: after) :
        Returns (single cursor.pos .dot cursor) (Scanned source ('.' :: rest)) :=
      returns_single begun (first?_of_dot digit (symbol?_of_dot other)) begun low
    rcases advanced.look '.' rfl with ⟨after, rfl, sees⟩ | ⟨blind, other⟩
    · have further := advanced.advance low
      have second : cursor.peek 2 = cursor.advance.advance.current := by
        rw [begun.peek_succ low 1 advanced]
        exact advanced.peek_succ low 0 further
      rw [second, sees, Bool.true_and]
      rcases further.look '.' rfl with ⟨behind, rfl, sees⟩ | ⟨blind, other⟩
      · rw [if_pos sees]
        have whole : '.' :: '.' :: '.' :: behind = ['.', '.', '.'] ++ behind := rfl
        have passed := begun.advanceBy whole (rfl : _ = 3)
        apply passed.moves
        have found : symbol? (['.', '.', '.'] ++ behind) = some (⟨.ellipsis, ['.', '.', '.']⟩, behind) :=
          symbol?_of_spells (by decide) (all_nil behind)
        exact returns_piece begun (first?_of_dot digit found) passed
      · rw [if_neg (by simp [blind])]
        refine single fun behind same => other ?_
        rw [(List.cons.inj same).2]
        rfl
    · rw [if_neg (by simp [blind])]
      refine single fun behind same => other ?_
      rw [same]
      rfl

end Dot

end FragmentBounds.Checked
